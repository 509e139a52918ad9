import Mathlib.Algebra.Order.Ring.Rat
import MeshWeaver.Model.Value

/-!
# The circuit breaker

There is no timer: an OPEN breaker turns HALF_OPEN when its `state` is read and the recovery timeout has passed,
and every method reads it. The timeout grows with a power of the backoff multiplier, which raises where the
floats end. Each reading of the clock has its own argument, since time passes between two of them. Thresholds below
zero have the effect of zero.
-/

namespace MeshWeaver

inductive CircuitState where
  | closed | opened | halfOpen
deriving DecidableEq, Repr

def CircuitState.value : CircuitState → String
  | .closed => "CLOSED"
  | .opened => "OPEN"
  | .halfOpen => "HALF_OPEN"

structure CircuitBreakerConfig where
  failureThreshold : Nat := 3
  recoveryTimeout : Rat := 5
  halfOpenSuccessThreshold : Nat := 2
  probeConcurrency : Nat := 1
  backoffMultiplier : Rat := 3 / 2
  maxRecoveryTimeout : Rat := 60
deriving DecidableEq

/-- `CircuitBreaker`; `stored` is its `_state`. -/
structure CircuitBreaker where
  nodeIdHex : String
  config : CircuitBreakerConfig
  stored : CircuitState
  failureCount : Nat
  successCount : Nat
  consecutiveTrips : Nat
  lastStateChange : Rat
  activeProbes : Nat
deriving DecidableEq

inductive Outcome where
  | success | failure
deriving DecidableEq, Repr

/-- `base ** exponent` of floats. -/
def floatPower (base : Rat) (exponent : Nat) : Except PyError Rat :=
  if 2 ^ 1024 ≤ |base ^ exponent| then .error (.overflowError "(34, 'Numerical result out of range')")
  else .ok (base ^ exponent)

namespace CircuitBreaker

def new (nodeIdHex : String) (config : CircuitBreakerConfig) (now : Rat) : CircuitBreaker :=
  { nodeIdHex, config, stored := .closed, failureCount := 0, successCount := 0, consecutiveTrips := 0,
    lastStateChange := now, activeProbes := 0 }

section Definitions

variable (b : CircuitBreaker)

def currentRecoveryTimeout : Except PyError Rat :=
  (floatPower b.config.backoffMultiplier (b.consecutiveTrips - 1)).map fun multiplier =>
    min b.config.maxRecoveryTimeout (b.config.recoveryTimeout * multiplier)

def transitionTo (newState : CircuitState) (now : Rat) : CircuitBreaker :=
  match newState with
  | .halfOpen => { b with stored := .halfOpen, lastStateChange := now, successCount := 0, activeProbes := 0 }
  | .closed =>
    { b with
      stored := .closed, lastStateChange := now, failureCount := 0, successCount := 0, consecutiveTrips := 0,
      activeProbes := 0 }
  | .opened =>
    { b with
      stored := .opened, lastStateChange := now, consecutiveTrips := b.consecutiveTrips + 1, activeProbes := 0 }

/-- A reading of `state`: the value is that of the `stored` state afterwards. -/
def state (now changed : Rat) : Except PyError CircuitBreaker :=
  if b.stored = .opened then
    b.currentRecoveryTimeout.map fun timeout =>
      if now - b.lastStateChange ≥ timeout then b.transitionTo .halfOpen changed else b
  else .ok b

/-- What `is_available` returns once it has read the state. -/
def accepts : Bool :=
  match b.stored with
  | .closed => true
  | .halfOpen => b.activeProbes < b.config.probeConcurrency
  | .opened => false

def isAvailable (now changed : Rat) : Except PyError (CircuitBreaker × Bool) :=
  (b.state now changed).map fun b => (b, b.accepts)

/-- What `record_failure` does once it has read the state. -/
def noteFailure (now : Rat) : CircuitBreaker :=
  match b.stored with
  | .halfOpen => b.transitionTo .opened now
  | .closed =>
    let b := { b with failureCount := b.failureCount + 1 }
    if b.failureCount ≥ b.config.failureThreshold then b.transitionTo .opened now else b
  | .opened => b

def noteSuccess (now : Rat) : CircuitBreaker :=
  match b.stored with
  | .halfOpen =>
    let b := { b with successCount := b.successCount + 1 }
    if b.successCount ≥ b.config.halfOpenSuccessThreshold then b.transitionTo .closed now else b
  | .closed => { b with failureCount := b.failureCount - 1 }
  | .opened => b

def recordFailure (clock : Nat → Rat) : Except PyError CircuitBreaker :=
  (b.state (clock 0) (clock 1)).map fun b => b.noteFailure (clock 2)

def recordSuccess (clock : Nat → Rat) : Except PyError CircuitBreaker :=
  (b.state (clock 0) (clock 1)).map fun b => b.noteSuccess (clock 2)

def note (outcome : Outcome) (now : Rat) : CircuitBreaker :=
  match outcome with
  | .success => b.noteSuccess now
  | .failure => b.noteFailure now

def record (outcome : Outcome) (clock : Nat → Rat) : CircuitBreaker :=
  match outcome with
  | .success => (b.recordSuccess clock).toOption.getD b
  | .failure => (b.recordFailure clock).toOption.getD b

/-- The breaker is OPEN and turns HALF_OPEN if its state is read at that time. -/
def Due (now : Rat) : Prop :=
  b.stored = .opened ∧ ∃ timeout ∈ b.currentRecoveryTimeout.toOption, timeout ≤ now - b.lastStateChange
deriving Decidable

/-- The breaker after a reading of its state, which may raise. -/
def evaluated (now changed : Rat) : CircuitBreaker :=
  if b.Due now then b.transitionTo .halfOpen changed else b

end Definitions

variable {b : CircuitBreaker}

@[simp] theorem stored_transitionTo (b : CircuitBreaker) (newState : CircuitState) (now : Rat) :
    (b.transitionTo newState now).stored = newState := by
  cases newState <;> rfl

@[simp] theorem activeProbes_transitionTo (b : CircuitBreaker) (newState : CircuitState) (now : Rat) :
    (b.transitionTo newState now).activeProbes = 0 := by
  cases newState <;> rfl

theorem state_of_ne (h : b.stored ≠ .opened) (now changed : Rat) : b.state now changed = .ok b := if_neg h

theorem not_due_of_ne (h : b.stored ≠ .opened) (now : Rat) : ¬ b.Due now := fun hdue => h hdue.1

/-- **A reading of the state** raises, and then leaves an OPEN breaker as it is, or turns a breaker that is due
HALF_OPEN. -/
theorem state_cases (b : CircuitBreaker) (now changed : Rat) :
    b.state now changed = .ok (b.evaluated now changed) ∨
      b.stored = .opened ∧ (∀ now, ¬ b.Due now) ∧ ∃ error, ∀ now changed, b.state now changed = .error error := by
  by_cases hopen : b.stored = .opened
  · cases htimeout : b.currentRecoveryTimeout with
    | error e =>
      refine Or.inr ⟨hopen, fun now hdue => ?_, e, fun now changed => ?_⟩
      · obtain ⟨-, timeout, hmem, -⟩ := hdue
        rw [htimeout] at hmem
        cases hmem
      · rw [state, if_pos hopen, htimeout]
        rfl
    | ok timeout =>
      have hdue : b.Due now ↔ now - b.lastStateChange ≥ timeout := by
        rw [Due, htimeout]
        simp [hopen, Except.toOption]
      refine Or.inl ?_
      rw [state, if_pos hopen, htimeout, evaluated]
      simp only [hdue]
      rfl
  · rw [evaluated, if_neg (not_due_of_ne hopen now)]
    exact Or.inl (state_of_ne hopen now changed)

theorem record_eq (b : CircuitBreaker) (outcome : Outcome) (clock : Nat → Rat) :
    b.record outcome clock = (b.evaluated (clock 0) (clock 1)).note outcome (clock 2) := by
  rcases state_cases b (clock 0) (clock 1) with hstate | ⟨hopen, hdue, error, hstate⟩
  · cases outcome with
    | success => rw [record, recordSuccess, hstate]; rfl
    | failure => rw [record, recordFailure, hstate]; rfl
  · rw [evaluated, if_neg (hdue _)]
    cases outcome with
    | success =>
      rw [record, recordSuccess, hstate, note, noteSuccess, hopen]
      rfl
    | failure =>
      rw [record, recordFailure, hstate, note, noteFailure, hopen]
      rfl

theorem config_evaluated (b : CircuitBreaker) (now changed : Rat) : (b.evaluated now changed).config = b.config := by
  rw [evaluated]
  split_ifs <;> rfl

theorem config_record (b : CircuitBreaker) (outcome : Outcome) (clock : Nat → Rat) :
    (b.record outcome clock).config = b.config := by
  rw [record_eq, ← config_evaluated b (clock 0) (clock 1)]
  generalize b.evaluated (clock 0) (clock 1) = b
  cases outcome with
  | success =>
    rw [note, noteSuccess]
    cases b.stored with
    | halfOpen => dsimp only; split_ifs <;> rfl
    | closed | opened => rfl
  | failure =>
    rw [note, noteFailure]
    cases b.stored with
    | halfOpen => rfl
    | closed => dsimp only; split_ifs <;> rfl
    | opened => rfl

end CircuitBreaker

end MeshWeaver
