import MeshWeaver.Breaker.Circuit

/-!
# The breakers of the nodes

`CircuitBreakerRegistry` has one breaker for each node that was asked for. A recording finds the node's breaker,
or makes one; it raises if the state of that breaker cannot be evaluated, and then nothing is recorded.
-/

namespace MeshWeaver

open Lib

namespace CircuitBreaker

def Evaluable (b : CircuitBreaker) : Prop := b.stored = .opened → b.currentRecoveryTimeout.isOk = true
deriving Decidable

variable {b : CircuitBreaker}

theorem state_of_evaluable (h : b.Evaluable) (now changed : Rat) :
    b.state now changed = .ok (b.evaluated now changed) := by
  rcases state_cases b now changed with hstate | ⟨hopen, -, error, hstate⟩
  · exact hstate
  · have hok := h hopen
    have hraised := hstate now changed
    rw [state, if_pos hopen] at hraised
    cases htimeout : b.currentRecoveryTimeout with
    | error e => rw [htimeout] at hok; cases hok
    | ok timeout => rw [htimeout] at hraised; cases hraised

theorem state_of_not_evaluable (h : ¬ b.Evaluable) : ∃ error, ∀ now changed, b.state now changed = .error error := by
  rw [Evaluable, Classical.not_imp] at h
  cases htimeout : b.currentRecoveryTimeout with
  | ok timeout => exact absurd (by rw [htimeout]; rfl) h.2
  | error e =>
    refine ⟨e, fun now changed => ?_⟩
    rw [state, if_pos h.1, htimeout]
    rfl

def tryRecord (b : CircuitBreaker) (outcome : Outcome) (clock : Nat → Rat) : Except PyError CircuitBreaker :=
  match outcome with
  | .success => b.recordSuccess clock
  | .failure => b.recordFailure clock

theorem tryRecord_of_evaluable (h : b.Evaluable) (outcome : Outcome) (clock : Nat → Rat) :
    b.tryRecord outcome clock = .ok (b.record outcome clock) := by
  rw [record_eq]
  cases outcome with
  | success => rw [tryRecord, recordSuccess, state_of_evaluable h]; rfl
  | failure => rw [tryRecord, recordFailure, state_of_evaluable h]; rfl

theorem tryRecord_of_not_evaluable (h : ¬ b.Evaluable) (outcome : Outcome) (clock : Nat → Rat) :
    ∃ error, b.tryRecord outcome clock = .error error := by
  obtain ⟨error, hstate⟩ := state_of_not_evaluable h
  refine ⟨error, ?_⟩
  cases outcome with
  | success => rw [tryRecord, recordSuccess, hstate]; rfl
  | failure => rw [tryRecord, recordFailure, hstate]; rfl

theorem Evaluable.record_success (h : b.Evaluable) (clock : Nat → Rat) : (b.record .success clock).Evaluable := by
  have hread : (b.evaluated (clock 0) (clock 1)).Evaluable := by
    rw [evaluated]
    split_ifs with hdue
    · intro hopen
      cases (stored_transitionTo ..).symm.trans hopen
    · exact h
  rw [record_eq, note, noteSuccess]
  generalize b.evaluated (clock 0) (clock 1) = read at hread
  cases hstored : read.stored with
  | opened => exact hread
  | closed => exact fun hopen => by cases hopen
  | halfOpen =>
    dsimp only
    split_ifs
    · exact fun hopen => by cases (stored_transitionTo ..).symm.trans hopen
    · exact fun hopen => by cases hopen

end CircuitBreaker

structure CircuitBreakerRegistry where
  defaultConfig : CircuitBreakerConfig
  breakers : Dict String CircuitBreaker

namespace CircuitBreakerRegistry

section Definitions

variable (registry : CircuitBreakerRegistry) (nodeIdHex : String)

/-- The breaker that a recording finds or makes. -/
def breaker (now : Rat) : CircuitBreaker :=
  (registry.breakers.get? nodeIdHex).getD (.new nodeIdHex registry.defaultConfig now)

/-- `get_or_create(node_id_hex)`; the breaker is `breaker`. -/
def getOrCreate (now : Rat) : CircuitBreakerRegistry :=
  if (registry.breakers.get? nodeIdHex).isSome then registry
  else { registry with breakers := registry.breakers.insert nodeIdHex (.new nodeIdHex registry.defaultConfig now) }

def isNodeAvailable (now changed : Rat) : Except PyError (CircuitBreakerRegistry × Bool) :=
  match registry.breakers.get? nodeIdHex with
  | none => .ok (registry, true)
  | some b => (b.isAvailable now changed).map fun result =>
      ({ registry with breakers := registry.breakers.insert nodeIdHex result.1 }, result.2)

def recordNode (outcome : Outcome) (clock : Nat → Rat) : CircuitBreakerRegistry × Except PyError Unit :=
  let created := registry.getOrCreate nodeIdHex (clock 0)
  match (registry.breaker nodeIdHex (clock 0)).tryRecord outcome fun i => clock (i + 1) with
  | .ok b => ({ created with breakers := created.breakers.insert nodeIdHex b }, .ok ())
  | .error error => (created, .error error)

def recordNodeSuccess (clock : Nat → Rat) : CircuitBreakerRegistry × Except PyError Unit :=
  registry.recordNode nodeIdHex .success clock

def recordNodeFailure (clock : Nat → Rat) : CircuitBreakerRegistry × Except PyError Unit :=
  registry.recordNode nodeIdHex .failure clock

def Records : Prop := ∀ b ∈ registry.breakers.get? nodeIdHex, b.Evaluable
deriving Decidable

end Definitions

variable {registry : CircuitBreakerRegistry} {nodeIdHex : String}

theorem get?_getOrCreate (registry : CircuitBreakerRegistry) (nodeIdHex id : String) (now : Rat) :
    (registry.getOrCreate nodeIdHex now).breakers.get? id =
      if id = nodeIdHex then some (registry.breaker nodeIdHex now) else registry.breakers.get? id := by
  rw [getOrCreate, breaker]
  cases hget : registry.breakers.get? nodeIdHex with
  | some b =>
    rw [if_pos Option.isSome_some]
    split_ifs with hid
    · rw [hid, hget, Option.getD_some]
    · rfl
  | none => exact Dict.get?_insert ..

theorem evaluable_breaker (h : registry.Records nodeIdHex) (now : Rat) :
    (registry.breaker nodeIdHex now).Evaluable := by
  rw [breaker]
  cases hget : registry.breakers.get? nodeIdHex with
  | some b => exact h b hget
  | none => exact fun hopen => by cases hopen

theorem not_evaluable_breaker (h : ¬ registry.Records nodeIdHex) (now : Rat) :
    ¬ (registry.breaker nodeIdHex now).Evaluable := by
  intro hevaluable
  refine h fun b hget => ?_
  rw [breaker, hget] at hevaluable
  exact hevaluable

/-- **A recording that does not raise** changes the breaker of its node. -/
theorem recordNode_of_records (h : registry.Records nodeIdHex) (outcome : Outcome) (clock : Nat → Rat) :
    (registry.recordNode nodeIdHex outcome clock).2 = .ok () ∧
      ∀ id, (registry.recordNode nodeIdHex outcome clock).1.breakers.get? id =
        if id = nodeIdHex then
          some ((registry.breaker nodeIdHex (clock 0)).record outcome fun i => clock (i + 1))
        else registry.breakers.get? id := by
  rw [recordNode, CircuitBreaker.tryRecord_of_evaluable (evaluable_breaker h _)]
  refine ⟨rfl, fun id => ?_⟩
  rw [Dict.get?_insert, get?_getOrCreate]
  split_ifs <;> rfl

theorem recordNode_of_not_records (h : ¬ registry.Records nodeIdHex) (outcome : Outcome) (clock : Nat → Rat) :
    (∃ error, (registry.recordNode nodeIdHex outcome clock).2 = .error error) ∧
      (registry.recordNode nodeIdHex outcome clock).1 = registry := by
  obtain ⟨error, hraises⟩ := CircuitBreaker.tryRecord_of_not_evaluable (not_evaluable_breaker h (clock 0)) outcome
    fun i => clock (i + 1)
  have hsome : (registry.breakers.get? nodeIdHex).isSome := by
    cases hget : registry.breakers.get? nodeIdHex with
    | some b => rfl
    | none =>
      refine absurd (fun b hb => ?_) h
      rw [hget] at hb
      cases hb
  rw [recordNode, hraises, getOrCreate, if_pos hsome]
  exact ⟨⟨error, rfl⟩, rfl⟩

theorem records_recordNode_success (h : registry.Records nodeIdHex) (clock : Nat → Rat) :
    (registry.recordNode nodeIdHex .success clock).1.Records nodeIdHex := by
  intro b hb
  rw [(recordNode_of_records h .success clock).2, if_pos rfl] at hb
  cases hb
  exact (evaluable_breaker h _).record_success _

end CircuitBreakerRegistry

end MeshWeaver
