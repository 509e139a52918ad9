import Mathlib.Tactic.Ring
import MeshWeaver.Breaker.Registry
import MeshWeaver.Lib.Run

/-!
# Where the recovery timeout overflows

The cap on the recovery timeout is applied to a power of the backoff multiplier. A worker that stays dead trips
its breaker again after every probe, so the exponent grows until the power is no float any more. From then on
the breaker is OPEN for good, and every reading of its state raises.
-/

namespace MeshWeaver

open Lib

namespace CircuitBreaker

inductive Use where
  | record (outcome : Outcome) (clock : Nat → Rat)
  | read (now changed : Rat)

/-- The breaker afterwards; it stays as it is if that raises. -/
def use (b : CircuitBreaker) : Use → CircuitBreaker
  | .record outcome clock => b.record outcome clock
  | .read now changed => (b.state now changed).toOption.getD b

/-- `state`, `is_available()` and `current_recovery_timeout` return, and the timeout is between 0 and
`max_recovery_timeout`. -/
structure Evaluates (b : CircuitBreaker) : Prop where
  state : ∀ now changed, (b.state now changed).isOk = true
  isAvailable : ∀ now changed, (b.isAvailable now changed).isOk = true
  timeout : ∃ timeout, b.currentRecoveryTimeout = .ok timeout ∧ 0 ≤ timeout ∧ timeout ≤ b.config.maxRecoveryTimeout

/-- The power of the multiplier is a float. -/
def InRange (b : CircuitBreaker) : Prop := b.config.backoffMultiplier ^ (b.consecutiveTrips - 1) < 2 ^ 1024

variable {b : CircuitBreaker}

theorem config_use (b : CircuitBreaker) (u : Use) : (b.use u).config = b.config := by
  cases u with
  | record outcome clock => exact config_record b outcome clock
  | read now changed =>
    rw [use]
    rcases state_cases b now changed with hstate | ⟨-, -, error, hstate⟩ <;> rw [hstate]
    · exact config_evaluated b now changed
    · rfl

/-! ### Out of range -/

theorem currentRecoveryTimeout_of_not_inRange (h : ¬ b.InRange) :
    ∃ error, b.currentRecoveryTimeout = .error error := by
  rw [currentRecoveryTimeout, floatPower, if_pos ((not_lt.mp h).trans (le_abs_self _))]
  exact ⟨_, rfl⟩

/-- **An OPEN breaker out of range** raises when it is evaluated, and stays as it is. -/
theorem raises_of_not_inRange (hopen : b.stored = .opened) (h : ¬ b.InRange) :
    (∃ error, ∀ now changed, b.state now changed = .error error ∧ b.isAvailable now changed = .error error) ∧
      ∀ u, b.use u = b := by
  obtain ⟨error, herror⟩ := currentRecoveryTimeout_of_not_inRange h
  have hstate : ∀ now changed, b.state now changed = .error error := by
    intro now changed
    rw [state, if_pos hopen, herror]
    rfl
  refine ⟨⟨error, fun now changed => ⟨hstate now changed, ?_⟩⟩, fun u => ?_⟩
  · rw [isAvailable, hstate]
    rfl
  · cases u with
    | record outcome clock =>
      cases outcome with
      | success => rw [use, record, recordSuccess, hstate]; rfl
      | failure => rw [use, record, recordFailure, hstate]; rfl
    | read now changed => rw [use, hstate]; rfl

/-! ### Within range -/

section
variable (hbackoff : 1 < b.config.backoffMultiplier)
include hbackoff

theorem currentRecoveryTimeout_of_inRange (h : b.InRange) :
    b.currentRecoveryTimeout = .ok (min b.config.maxRecoveryTimeout
      (b.config.recoveryTimeout * b.config.backoffMultiplier ^ (b.consecutiveTrips - 1))) := by
  have hpos := pow_pos (zero_lt_one.trans hbackoff) (b.consecutiveTrips - 1)
  rw [currentRecoveryTimeout, floatPower, if_neg (by rwa [abs_of_pos hpos, not_le])]
  rfl

theorem evaluates_iff (hrecovery : 0 < b.config.recoveryTimeout) :
    b.Evaluates ↔ 0 ≤ b.config.maxRecoveryTimeout ∧ b.InRange := by
  constructor
  · rintro ⟨-, -, timeout, htimeout, hnonneg, hle⟩
    refine ⟨hnonneg.trans hle, ?_⟩
    by_contra hrange
    obtain ⟨error, herror⟩ := currentRecoveryTimeout_of_not_inRange hrange
    cases herror.symm.trans htimeout
  · rintro ⟨hmax, hrange⟩
    have htimeout := currentRecoveryTimeout_of_inRange hbackoff hrange
    have hstate := state_of_evaluable fun _ => by rw [htimeout]; rfl
    refine ⟨fun now changed => ?_, fun now changed => ?_, _, htimeout, le_min hmax ?_, min_le_left _ _⟩
    · rw [hstate]
      rfl
    · rw [isAvailable, hstate]
      rfl
    · exact (mul_pos hrecovery (pow_pos (zero_lt_one.trans hbackoff) _)).le

theorem due_of_inRange (h : b.InRange) (hopen : b.stored = .opened) {now : Rat}
    (hnow : b.config.maxRecoveryTimeout ≤ now - b.lastStateChange) : b.Due now :=
  ⟨hopen, _, congrArg Except.toOption (currentRecoveryTimeout_of_inRange hbackoff h), (min_le_left _ _).trans hnow⟩

end

/-! ### A dead worker -/

/-- `n` failures, `period` apart. -/
def failures (period : Rat) (n : Nat) : List Use :=
  (List.range n).map fun i : Nat => .record .failure fun _ => i * period

theorem run_failures_succ (b : CircuitBreaker) (period : Rat) (n : Nat) :
    run use b (failures period (n + 1)) = (run use b (failures period n)).record .failure fun _ => n * period := by
  rw [failures, List.range_succ, List.map_append, run_append]
  rfl

section
variable (nodeIdHex : String) (config : CircuitBreakerConfig) (start period : Rat)

def tripsAfter : Nat := max 1 config.failureThreshold

/-- The breaker of a worker that has failed `k` probes. -/
def dead (k : Nat) : CircuitBreaker :=
  { new nodeIdHex config start with
    stored := .opened
    failureCount := tripsAfter config
    consecutiveTrips := k + 1
    lastStateChange := (tripsAfter config + k - 1 : Nat) * period }

theorem inRange_dead_iff (k : Nat) :
    (dead nodeIdHex config start period k).InRange ↔ config.backoffMultiplier ^ k < 2 ^ 1024 := by
  rw [InRange, dead, Nat.add_sub_cancel]
  exact Iff.rfl

theorem run_failures_of_lt {n : Nat} (hn : n < tripsAfter config) :
    run use (new nodeIdHex config start) (failures period n) =
      { new nodeIdHex config start with failureCount := n } := by
  induction n with
  | zero => rfl
  | succ n ih =>
    have hlt : ¬ n + 1 ≥ config.failureThreshold := by
      unfold tripsAfter at hn
      omega
    rw [run_failures_succ, ih (by omega), record_eq, evaluated, if_neg (not_due_of_ne (by simp [new]) _)]
    exact if_neg hlt

variable {config period}

/-- **Every probe of a dead worker trips its breaker again**, as long as the powers are floats. -/
theorem run_failures (hbackoff : 1 < config.backoffMultiplier) (hperiod : config.maxRecoveryTimeout ≤ period) {k : Nat}
    (hrange : ∀ j < k, config.backoffMultiplier ^ j < 2 ^ 1024) :
    run use (new nodeIdHex config start) (failures period (tripsAfter config + k)) =
      dead nodeIdHex config start period k := by
  obtain ⟨m, hm⟩ : ∃ m, tripsAfter config = m + 1 := ⟨tripsAfter config - 1, by unfold tripsAfter; omega⟩
  induction k with
  | zero =>
    have hge : m + 1 ≥ config.failureThreshold := by
      unfold tripsAfter at hm
      omega
    rw [dead, hm, Nat.add_zero, run_failures_succ, run_failures_of_lt _ _ _ _ (by omega), record_eq, evaluated,
      if_neg (not_due_of_ne (by simp [new]) _)]
    exact if_pos hge
  | succ k ih =>
    have helapsed : ((tripsAfter config + k : Nat) : Rat) * period -
        ((tripsAfter config + k - 1 : Nat) : Rat) * period = period := by
      rw [hm, show m + 1 + k = m + k + 1 by omega, Nat.add_sub_cancel]
      push_cast
      ring
    have hdue : (dead nodeIdHex config start period k).Due ((tripsAfter config + k : Nat) * period) :=
      due_of_inRange hbackoff ((inRange_dead_iff ..).mpr (hrange k (by omega))) rfl (hperiod.trans helapsed.ge)
    rw [← Nat.add_assoc, run_failures_succ, ih fun j hj => hrange j (by omega), record_eq, evaluated, if_pos hdue]
    rfl

end

/-- **When evaluating a breaker never raises**, at no point of a run: the cap is not negative, and whenever the
breaker is evaluated the power for its trips is a float. -/
theorem evaluates_throughout_iff (nodeIdHex : String) {config : CircuitBreakerConfig} (start : Rat)
    (hrecovery : 0 < config.recoveryTimeout) (hbackoff : 1 < config.backoffMultiplier) (uses : List Use) :
    let b (n : Nat) := run use (new nodeIdHex config start) (uses.take n)
    (∀ n, (b n).Evaluates) ↔
      0 ≤ config.maxRecoveryTimeout ∧ ∀ n, config.backoffMultiplier ^ ((b n).consecutiveTrips - 1) < 2 ^ 1024 := by
  intro b
  have hconfig : ∀ n, (b n).config = config := fun n => Lib.run_invariant (I := fun b => b.config = config)
    (fun b u h => (config_use b u).trans h) rfl _
  have hiff : ∀ n, (b n).Evaluates ↔
      0 ≤ config.maxRecoveryTimeout ∧ config.backoffMultiplier ^ ((b n).consecutiveTrips - 1) < 2 ^ 1024 := by
    intro n
    rw [evaluates_iff (by rwa [hconfig]) (by rwa [hconfig]), InRange, hconfig]
  simp only [hiff, forall_and, forall_const]

theorem evaluates_after_five_failures :
    (0 : Rat) < 5 ∧ (1 : Rat) < 3 / 2 ∧ (run use (new "w" {} 0) ((failures 60 5).take 5)).Evaluates := by
  have hrecovery : (0 : Rat) < 5 := by decide
  have hbackoff : (1 : Rat) < 3 / 2 := by decide +kernel
  refine ⟨hrecovery, hbackoff, (evaluates_throughout_iff "w" 0 hrecovery hbackoff _).mpr ⟨by decide, ?_⟩ 5⟩
  exact (Lib.forall_run_take_iff
    (P := fun b : CircuitBreaker => (3 / 2 : Rat) ^ (b.consecutiveTrips - 1) < 2 ^ 1024)).mpr (by decide +kernel)

/-- **A dead worker that is probed every minute.** With the default configuration its breaker is OPEN for good
after 1754 failures, and raises whenever it is evaluated. -/
theorem dead_worker_overflows :
    let b := run use (new "w" {} 0) (failures 60 1754)
    (∃ error, ∀ now changed, b.state now changed = .error error ∧ b.isAvailable now changed = .error error) ∧
      ∀ later, run use b later = b := by
  have hbackoff : (1 : Rat) < 3 / 2 := by decide +kernel
  have hlast : (3 / 2 : Rat) ^ 1750 < 2 ^ 1024 := by decide +kernel
  have hover : (2 : Rat) ^ 1024 ≤ (3 / 2) ^ 1751 := by decide +kernel
  have hrange : ∀ j < 1751, (3 / 2 : Rat) ^ j < 2 ^ 1024 := fun j hj =>
    (pow_le_pow_right₀ hbackoff.le (by omega)).trans_lt hlast
  have hb : run use (new "w" {} 0) (failures 60 (tripsAfter {} + 1751)) = dead "w" {} 0 60 1751 :=
    run_failures "w" 0 hbackoff le_rfl hrange
  have hout : ¬ (dead "w" {} 0 60 1751).InRange := fun h => absurd ((inRange_dead_iff ..).mp h) (not_lt.mpr hover)
  obtain ⟨hraises, hstays⟩ := raises_of_not_inRange rfl hout
  rw [show 1754 = tripsAfter {} + 1751 from rfl, hb]
  exact ⟨hraises, Lib.run_invariant (I := (· = dead "w" {} 0 60 1751)) (fun b u h => by rw [h, hstays]) rfl⟩

end CircuitBreaker

end MeshWeaver
