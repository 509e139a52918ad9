import MeshWeaver.Breaker.Circuit
import MeshWeaver.Lib.Run

/-!
# Guarded sections

`guard` and `async_guard` ask the breaker before their section and tell it how the section ended. Sections
overlap: a probe is one that was let in while the breaker was HALF_OPEN, but whatever ends while it is HALF_OPEN
is taken for a probe. What runs before a section, and after it, is one step.
-/

namespace MeshWeaver

open Lib

/-- How a section ends: it returns, it raises an `Exception`, or it is left by a `BaseException` such as
`CancelledError`, of which nothing is recorded. -/
inductive SectionEnd where
  | success | failure | interrupted
deriving DecidableEq, Repr

/-- What `guard` raises instead of starting its section. -/
inductive GuardError where
  | circuitBreakerOpenError (message : String)
  | raised (error : PyError)
deriving DecidableEq

namespace CircuitBreaker

section Definitions

variable (b : CircuitBreaker)

def openMessage : String :=
  "Circuit breaker for node " ++ String.ofList (b.nodeIdHex.toList.take 8) ++ " is " ++ b.stored.value

/-- `guard` once it has asked whether the breaker is available. The state is read for the message, or once more
to see whether the section is a probe. -/
def proceed (available : Bool) (clock : Nat → Rat) : CircuitBreaker × Except GuardError Bool :=
  match b.state (clock 2) (clock 3) with
  | .error error => (b, .error (.raised error))
  | .ok b =>
    if available then
      if b.stored = .halfOpen then ({ b with activeProbes := b.activeProbes + 1 }, .ok true) else (b, .ok false)
    else (b, .error (.circuitBreakerOpenError b.openMessage))

/-- `guard` up to its section: whether the section is a probe. -/
def enter (clock : Nat → Rat) : CircuitBreaker × Except GuardError Bool :=
  match b.isAvailable (clock 0) (clock 1) with
  | .error error => (b, .error (.raised error))
  | .ok (b, available) => b.proceed available clock

/-- What `guard` records of its section; `record_success` stands inside of the `try`. -/
def recordEnd (ended : SectionEnd) (clock : Nat → Rat) : CircuitBreaker :=
  match ended with
  | .success =>
    match b.recordSuccess clock with
    | .ok b => b
    | .error _ => b.record .failure fun i => clock (3 + i)
  | .failure => b.record .failure clock
  | .interrupted => b

/-- The `finally` of `guard`, once it has read the state. -/
def giveBack : CircuitBreaker :=
  if b.stored = .halfOpen ∧ b.activeProbes > 0 then { b with activeProbes := b.activeProbes - 1 } else b

def exit (ended : SectionEnd) (clock : Nat → Rat) : CircuitBreaker :=
  let b := b.recordEnd ended clock
  match b.state (clock 6) (clock 7) with
  | .ok b => b.giveBack
  | .error _ => b

end Definitions

variable {b : CircuitBreaker}

theorem exit_eq (b : CircuitBreaker) (ended : SectionEnd) (clock : Nat → Rat) :
    b.exit ended clock = ((b.recordEnd ended clock).evaluated (clock 6) (clock 7)).giveBack := by
  rw [exit]
  generalize b.recordEnd ended clock = b
  rcases state_cases b (clock 6) (clock 7) with hstate | ⟨hopen, hdue, error, hstate⟩
  · rw [hstate]
  · rw [hstate, evaluated, if_neg (hdue _), giveBack, hopen]
    rfl

theorem recordEnd_success (b : CircuitBreaker) (clock : Nat → Rat) :
    b.recordEnd .success clock = b.record .success clock := by
  rw [recordEnd, record]
  rcases state_cases b (clock 0) (clock 1) with hstate | ⟨hopen, hdue, error, hstate⟩
  · rw [recordSuccess, hstate]
    rfl
  · rw [record_eq, recordSuccess, hstate, evaluated, if_neg (hdue _), note, noteFailure, hopen]
    rfl

theorem proceed_closed (h : b.stored = .closed) (clock : Nat → Rat) : b.proceed true clock = (b, .ok false) := by
  rw [proceed, state_of_ne (by rw [h]; decide)]
  simp [h]

theorem proceed_halfOpen (h : b.stored = .halfOpen) (clock : Nat → Rat) :
    b.proceed true clock = ({ b with activeProbes := b.activeProbes + 1 }, .ok true) := by
  rw [proceed, state_of_ne (by rw [h]; decide)]
  simp [h]

theorem proceed_refused (b : CircuitBreaker) (clock : Nat → Rat) :
    ∃ error, b.proceed false clock = (b.evaluated (clock 2) (clock 3), .error error) := by
  rw [proceed]
  rcases state_cases b (clock 2) (clock 3) with hstate | ⟨-, hdue, error, hstate⟩
  · rw [hstate]
    exact ⟨_, rfl⟩
  · rw [hstate, evaluated, if_neg (hdue _)]
    exact ⟨_, rfl⟩

theorem enter_cases (b : CircuitBreaker) (clock : Nat → Rat) :
    let read := b.evaluated (clock 0) (clock 1)
    read.stored = .closed ∧ b.enter clock = (read, .ok false) ∨
      (read.stored = .halfOpen ∧ read.activeProbes < read.config.probeConcurrency ∧
        b.enter clock = ({ read with activeProbes := read.activeProbes + 1 }, .ok true)) ∨
      read.accepts = false ∧ ∃ error, b.enter clock = (read.evaluated (clock 2) (clock 3), .error error) := by
  intro read
  rcases state_cases b (clock 0) (clock 1) with hstate | ⟨hopen, hdue, error, hstate⟩
  · have henter : b.enter clock = read.proceed read.accepts clock := by
      rw [enter, isAvailable, hstate]
      rfl
    rw [henter]
    cases haccepts : read.accepts with
    | false => exact Or.inr (Or.inr ⟨rfl, proceed_refused read clock⟩)
    | true =>
      rw [accepts] at haccepts
      cases hread : read.stored with
      | closed => exact Or.inl ⟨rfl, proceed_closed hread clock⟩
      | halfOpen =>
        rw [hread] at haccepts
        refine Or.inr (Or.inl ⟨rfl, of_decide_eq_true haccepts, ?_⟩)
        rw [proceed_halfOpen hread clock, hread]
      | opened =>
        rw [hread] at haccepts
        cases haccepts
  · have hread : read = b := if_neg (hdue _)
    rw [hread, evaluated, if_neg (hdue _)]
    refine Or.inr (Or.inr ⟨by rw [accepts, hopen], .raised error, ?_⟩)
    rw [enter, isAvailable, hstate]
    rfl

theorem evaluated_of_due {now : Rat} (h : b.Due now) (changed : Rat) :
    b.evaluated now changed = b.transitionTo .halfOpen changed := if_pos h

theorem evaluated_of_not_due {now : Rat} (h : ¬ b.Due now) (changed : Rat) : b.evaluated now changed = b :=
  if_neg h

theorem evaluated_twice (b : CircuitBreaker) (now changed later changedLater : Rat) :
    let read := (b.evaluated now changed).evaluated later changedLater
    (b.Due now ∨ b.Due later → read.stored = .halfOpen ∧ read.activeProbes = 0) ∧
      (¬ (b.Due now ∨ b.Due later) → read = b) := by
  by_cases hdue : b.Due now
  · have hlater : ¬ (b.transitionTo .halfOpen changed).Due later := not_due_of_ne (by simp) _
    rw [evaluated_of_due hdue, evaluated_of_not_due hlater]
    exact ⟨fun _ => ⟨rfl, rfl⟩, fun hnot => absurd (Or.inl hdue) hnot⟩
  · rw [evaluated_of_not_due hdue]
    by_cases hlater : b.Due later
    · rw [evaluated_of_due hlater]
      exact ⟨fun _ => ⟨rfl, rfl⟩, fun hnot => absurd (Or.inr hlater) hnot⟩
    · rw [evaluated_of_not_due hlater]
      exact ⟨fun h => absurd h (not_or_intro hdue hlater), fun _ => rfl⟩

/-- The end of a section leaves the breaker in a HALF_OPEN period that was not there before: the state is found
due after the outcome was recorded, or while a success is recorded that does not close the breaker again. -/
def StartsPeriod (b : CircuitBreaker) (ended : SectionEnd) (clock : Nat → Rat) : Prop :=
  (b.recordEnd ended clock).Due (clock 6) ∨
    ended = .success ∧ b.Due (clock 0) ∧ 1 < b.config.halfOpenSuccessThreshold
deriving Decidable

theorem config_exit (b : CircuitBreaker) (ended : SectionEnd) (clock : Nat → Rat) :
    (b.exit ended clock).config = b.config := by
  have hgive : ∀ b : CircuitBreaker, b.giveBack.config = b.config := fun b => by
    rw [giveBack]
    split_ifs <;> rfl
  rw [exit_eq, hgive, config_evaluated]
  cases ended with
  | success => rw [recordEnd_success, config_record]
  | failure => exact config_record ..
  | interrupted => rfl

theorem record_failure_ne_halfOpen (b : CircuitBreaker) (clock : Nat → Rat) :
    (b.record .failure clock).stored ≠ .halfOpen := by
  rw [record_eq, note, noteFailure]
  split
  · simp [transitionTo]
  · next h =>
    dsimp only
    split_ifs
    · simp [transitionTo]
    · simp [h]
  · next h => simp [h]

theorem record_success_halfOpen (b : CircuitBreaker) (clock : Nat → Rat) :
    let read := b.evaluated (clock 0) (clock 1)
    let after := b.record .success clock
    (after.stored = .halfOpen ↔
      read.stored = .halfOpen ∧ read.successCount + 1 < read.config.halfOpenSuccessThreshold) ∧
    (after.stored = .halfOpen → after.activeProbes = read.activeProbes) := by
  rw [record_eq, note, noteSuccess]
  split
  · next h =>
    dsimp only
    split_ifs with hreach
    · simp [transitionTo, hreach]
    · simpa [h] using hreach
  · next h => simp [h]
  · next h => simp [h]

/-- **How the end of a section leaves a breaker HALF_OPEN**: in a new period without probes, or in the period that
was there, with one probe less. -/
theorem exit_spec (b : CircuitBreaker) (ended : SectionEnd) (clock : Nat → Rat) :
    let after := b.exit ended clock
    (b.StartsPeriod ended clock → after.stored = .halfOpen ∧ after.activeProbes = 0) ∧
      (¬ b.StartsPeriod ended clock → after.stored = .halfOpen →
        b.stored = .halfOpen ∧ after.activeProbes = b.activeProbes - 1) := by
  dsimp only
  rw [exit_eq]
  by_cases hlater : (b.recordEnd ended clock).Due (clock 6)
  · rw [evaluated_of_due hlater]
    exact ⟨fun _ => ⟨rfl, rfl⟩, fun hnot => absurd (Or.inl hlater) hnot⟩
  · rw [evaluated_of_not_due hlater]
    have hgive : ∀ b : CircuitBreaker, b.giveBack.stored = b.stored ∧
        (b.stored = .halfOpen → b.giveBack.activeProbes = b.activeProbes - 1) := by
      intro b
      rw [giveBack]
      split_ifs with hprobe
      · exact ⟨rfl, fun _ => rfl⟩
      · refine ⟨rfl, fun hhalf => ?_⟩
        have : ¬ b.activeProbes > 0 := fun hpos => hprobe ⟨hhalf, hpos⟩
        omega
    obtain ⟨hstored, hprobes⟩ := hgive (b.recordEnd ended clock)
    rw [hstored]
    cases ended with
    | interrupted =>
      refine ⟨fun hstarts => ?_, fun _ hhalf => ⟨hhalf, hprobes hhalf⟩⟩
      rcases hstarts with hdue | ⟨hsuccess, -⟩
      · exact absurd hdue hlater
      · cases hsuccess
    | failure =>
      refine ⟨fun hstarts => ?_, fun _ hhalf => absurd hhalf (record_failure_ne_halfOpen b clock)⟩
      rcases hstarts with hdue | ⟨hsuccess, -⟩
      · exact absurd hdue hlater
      · cases hsuccess
    | success =>
      rw [recordEnd_success] at hprobes ⊢
      obtain ⟨hiff, hsame⟩ := record_success_halfOpen b clock
      by_cases hdue : b.Due (clock 0)
      · rw [evaluated_of_due hdue] at hiff hsame
        refine ⟨fun hstarts => ?_, fun hnot hhalf => absurd (Or.inr ⟨rfl, hdue, (hiff.mp hhalf).2⟩) hnot⟩
        obtain ⟨-, -, hthreshold⟩ := hstarts.resolve_left hlater
        have hhalf := hiff.mpr ⟨rfl, hthreshold⟩
        exact ⟨hhalf, by rw [hprobes hhalf, hsame hhalf]; rfl⟩
      · rw [evaluated_of_not_due hdue] at hiff hsame
        refine ⟨fun hstarts => absurd (hstarts.resolve_left hlater).2.1 hdue, fun _ hhalf => ?_⟩
        exact ⟨(hiff.mp hhalf).1, by rw [hprobes hhalf, hsame hhalf]⟩

theorem not_startsPeriod_success (h : b.stored = .halfOpen) (clock : Nat → Rat) :
    ¬ b.StartsPeriod .success clock := by
  have hnever : ∀ now, ¬ b.Due now := not_due_of_ne (by rw [h]; decide)
  have hnoted : (b.noteSuccess (clock 2)).stored ≠ .opened := by
    rw [noteSuccess, h]
    dsimp only
    split_ifs <;> simp
  rw [StartsPeriod, recordEnd_success, record_eq, evaluated_of_not_due (hnever _)]
  exact not_or_intro (not_due_of_ne hnoted _) fun hboth => hnever _ hboth.2.1

end CircuitBreaker

end MeshWeaver
