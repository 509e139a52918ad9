import Mathlib.Data.Rat.Floor
import MeshWeaver.Breaker.Registry
import MeshWeaver.Node.Peers

/-!
# The workers of a scheduler

`TaskScheduler.select_worker` asks the breaker of every peer that gossip knows of, scores the peers that are
available and picks one by a policy. A question changes a breaker: it turns HALF_OPEN if it is due, and a peer
without a breaker gets one. A snapshot is always alive; its TCP port may be `None`, but `register_neighbor` and
`receive_heartbeat`, which make the snapshots, set it. The two positions that `random.sample` picks are an argument.
-/

namespace MeshWeaver

open Lib

inductive SchedulingPolicy where
  | leastLoaded | roundRobin | powerOfTwoRandom | localFirst
deriving DecidableEq, Repr

structure WorkerCandidate where
  nodeId : String
  host : String
  tcpPort : Nat
  cpuPercent : Rat
  ramPercent : Rat
  pendingTasks : Nat
  score : Rat
deriving DecidableEq

/-- `round(x, 3)`: ties go to the even neighbour. -/
def roundThree (x : Rat) : Rat :=
  let scaled := x * 1000
  let below := ⌊scaled⌋
  let up := scaled - below > 1 / 2 ∨ scaled - below = 1 / 2 ∧ below % 2 = 1
  (if up then below + 1 else below : Int) / 1000

structure LoadScorer where
  cpuWeight : Rat := 3 / 5
  ramWeight : Rat := 2 / 5
  pendingTaskWeight : Rat := 5
  circuitFailureWeight : Rat := 15

def LoadScorer.calculateScore (scorer : LoadScorer) (cpuPercent ramPercent : Rat) (pendingTasks recentFailures : Nat) :
    Rat :=
  let baseScore := scorer.cpuWeight * cpuPercent + scorer.ramWeight * ramPercent
  let penalty := scorer.pendingTaskWeight * pendingTasks + scorer.circuitFailureWeight * recentFailures
  roundThree (baseScore + penalty)

/-- `RetryPolicy`, without what only says how long an attempt or a pause lasts. -/
structure RetryPolicy where
  maxRetries : Nat := 3
  excludeFailedNodes : Bool := true
  tripCircuitOnTransportFailure : Bool := true

/-- `TaskScheduler`; `peers` are those of its `gossip_manager`, if it has one. -/
structure TaskScheduler where
  localNodeId : String
  peers : Option (Dict String PeerLoadSnapshot)
  loadScorer : LoadScorer
  defaultPolicy : SchedulingPolicy
  retryPolicy : RetryPolicy
  circuitBreakers : CircuitBreakerRegistry
  roundRobinIndex : Nat
  activeTasks : Dict String Nat

/-- What a selection reads of the clock, for each peer, and the two positions it would sample. -/
structure Selection where
  clock : String → Nat → Rat
  sample : Nat × Nat

namespace TaskScheduler

section Definitions

variable (scheduler : TaskScheduler)

def candidate (registry : CircuitBreakerRegistry) (nodeId : String) (peer : PeerLoadSnapshot) (now : Rat) :
    WorkerCandidate :=
  let pending := (scheduler.activeTasks.get? nodeId).getD 0
  { nodeId, host := peer.ip, tcpPort := peer.tcpPort, cpuPercent := peer.cpuPercent, ramPercent := peer.ramPercent,
    pendingTasks := pending
    score := scheduler.loadScorer.calculateScore peer.cpuPercent peer.ramPercent pending
      (registry.breaker nodeId now).failureCount }

/-- The loop of `get_active_candidates`, with the registry that it leaves. -/
def collect (excluded : List String) (clock : String → Nat → Rat) :
    List (String × PeerLoadSnapshot) → CircuitBreakerRegistry →
      CircuitBreakerRegistry × Except PyError (List WorkerCandidate)
  | [], registry => (registry, .ok [])
  | (nodeId, peer) :: rest, registry =>
    if nodeId ∈ excluded ∨ nodeId = scheduler.localNodeId then collect excluded clock rest registry
    else
      match registry.isNodeAvailable nodeId (clock nodeId 0) (clock nodeId 1) with
      | .error error => (registry, .error error)
      | .ok (registry, false) => collect excluded clock rest registry
      | .ok (registry, true) =>
        let found := scheduler.candidate registry nodeId peer (clock nodeId 2)
        let (registry, others) := collect excluded clock rest (registry.getOrCreate nodeId (clock nodeId 2))
        (registry, others.map (found :: ·))

def getActiveCandidates (excluded : List String) (clock : String → Nat → Rat) :
    TaskScheduler × Except PyError (List WorkerCandidate) :=
  match scheduler.peers with
  | none => (scheduler, .ok [])
  | some peers =>
    let (registry, candidates) := scheduler.collect excluded clock peers.items scheduler.circuitBreakers
    ({ scheduler with circuitBreakers := registry }, candidates)

/-- `_select_least_loaded(candidates)`: the first of those with the lowest score. -/
def selectLeastLoaded : List WorkerCandidate → Option WorkerCandidate
  | [] => none
  | first :: others =>
    match selectLeastLoaded others with
    | none => some first
    | some best => if best.score < first.score then some best else some first

/-- `random.sample(candidates, 2)`; every pair of two positions is one of these. -/
def randomSample (picks : Nat × Nat) (candidates : List WorkerCandidate) : List WorkerCandidate :=
  let first := picks.1 % candidates.length
  let second := (first + 1 + picks.2 % (candidates.length - 1)) % candidates.length
  candidates[first]?.toList ++ candidates[second]?.toList

def selectPowerOfTwo (picks : Nat × Nat) (candidates : List WorkerCandidate) : Option WorkerCandidate :=
  match candidates with
  | [] => none
  | [only] => some only
  | _ => selectLeastLoaded (randomSample picks candidates)

def selectWorker (policy : Option SchedulingPolicy) (excluded : List String) (selection : Selection) :
    TaskScheduler × Except PyError (Option WorkerCandidate) :=
  match scheduler.getActiveCandidates excluded selection.clock with
  | (scheduler, .error error) => (scheduler, .error error)
  | (scheduler, .ok []) => (scheduler, .ok none)
  | (scheduler, .ok candidates) =>
    match policy.getD scheduler.defaultPolicy with
    | .roundRobin =>
      ({ scheduler with roundRobinIndex := (scheduler.roundRobinIndex + 1) % candidates.length },
        .ok candidates[scheduler.roundRobinIndex % candidates.length]?)
    | .powerOfTwoRandom => (scheduler, .ok (selectPowerOfTwo selection.sample candidates))
    | .leastLoaded => (scheduler, .ok (selectLeastLoaded candidates))
    | .localFirst => (scheduler, .ok (selectLeastLoaded candidates))

end Definitions

/-! ### What a selection does to the breakers -/

/-- The breakers have only been read, which may have turned an OPEN one HALF_OPEN, or made. -/
def Asked (before after : CircuitBreakerRegistry) : Prop :=
  ∀ nodeId, ∀ b ∈ before.breakers.get? nodeId, after.breakers.get? nodeId = some b ∨
    b.stored = .opened ∧ ∃ changed, after.breakers.get? nodeId = some (b.transitionTo .halfOpen changed)

theorem Asked.refl (registry : CircuitBreakerRegistry) : Asked registry registry := fun _ _ hb => Or.inl hb

theorem Asked.trans {r₁ r₂ r₃ : CircuitBreakerRegistry} (h : Asked r₁ r₂) (h' : Asked r₂ r₃) : Asked r₁ r₃ := by
  intro nodeId b hb
  rcases h nodeId b hb with hsame | ⟨hopen, changed, hturned⟩
  · exact h' nodeId b hsame
  · rcases h' nodeId _ hturned with hsame | ⟨hopen', -⟩
    · exact Or.inr ⟨hopen, changed, hsame⟩
    · cases hopen'

theorem asked_getOrCreate (registry : CircuitBreakerRegistry) (nodeId : String) (now : Rat) :
    Asked registry (registry.getOrCreate nodeId now) := by
  intro id b hb
  left
  rw [CircuitBreakerRegistry.get?_getOrCreate]
  split_ifs with hid
  · rw [CircuitBreakerRegistry.breaker, ← hid, hb, Option.getD_some]
  · exact hb

theorem asked_isNodeAvailable {registry after : CircuitBreakerRegistry} {nodeId : String} {now changed : Rat}
    {available : Bool} (h : registry.isNodeAvailable nodeId now changed = .ok (after, available)) :
    Asked registry after := by
  rw [CircuitBreakerRegistry.isNodeAvailable] at h
  cases hget : registry.breakers.get? nodeId with
  | none =>
    rw [hget] at h
    cases h
    exact Asked.refl registry
  | some old =>
    rw [hget] at h
    dsimp only at h
    rw [CircuitBreaker.isAvailable] at h
    rcases CircuitBreaker.state_cases old now changed with hstate | ⟨-, -, error, hstate⟩
    · rw [hstate] at h
      cases h
      intro id b hb
      rw [Dict.get?_insert]
      split_ifs with hid
      · rw [hid, hget] at hb
        cases hb
        rw [CircuitBreaker.evaluated]
        split_ifs with hdue
        · exact Or.inr ⟨hdue.1, changed, rfl⟩
        · exact Or.inl rfl
      · exact Or.inl hb
    · rw [hstate] at h
      cases h

variable (scheduler : TaskScheduler)

theorem asked_collect (excluded : List String) (clock : String → Nat → Rat)
    (peers : List (String × PeerLoadSnapshot)) (registry : CircuitBreakerRegistry) :
    Asked registry (scheduler.collect excluded clock peers registry).1 := by
  induction peers generalizing registry with
  | nil => exact Asked.refl registry
  | cons item rest ih =>
    obtain ⟨nodeId, peer⟩ := item
    rw [collect]
    split_ifs
    · exact ih registry
    · cases havailable : registry.isNodeAvailable nodeId (clock nodeId 0) (clock nodeId 1) with
      | error error => exact Asked.refl registry
      | ok result =>
        obtain ⟨after, available⟩ := result
        have hasked := asked_isNodeAvailable havailable
        cases available with
        | false => exact hasked.trans (ih after)
        | true => exact hasked.trans ((asked_getOrCreate after nodeId _).trans (ih _))

theorem asked_getActiveCandidates (excluded : List String) (clock : String → Nat → Rat) :
    Asked scheduler.circuitBreakers (scheduler.getActiveCandidates excluded clock).1.circuitBreakers := by
  rw [getActiveCandidates]
  cases scheduler.peers with
  | none => exact Asked.refl _
  | some peers => exact asked_collect scheduler excluded clock peers.items scheduler.circuitBreakers

theorem asked_selectWorker (policy : Option SchedulingPolicy) (excluded : List String) (selection : Selection) :
    Asked scheduler.circuitBreakers (scheduler.selectWorker policy excluded selection).1.circuitBreakers := by
  have hasked := asked_getActiveCandidates scheduler excluded selection.clock
  rw [selectWorker]
  generalize scheduler.getActiveCandidates excluded selection.clock = found at hasked
  obtain ⟨after, candidates⟩ := found
  cases candidates with
  | error error => exact hasked
  | ok candidates =>
    cases candidates with
    | nil => exact hasked
    | cons first others =>
      dsimp only
      split <;> exact hasked

end TaskScheduler

end MeshWeaver
