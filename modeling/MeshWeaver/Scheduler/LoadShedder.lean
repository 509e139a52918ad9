import Mathlib.Algebra.Order.Ring.Rat
import Mathlib.Data.List.DropRight
import MeshWeaver.Lib.Run
import MeshWeaver.Lib.TokenBucket

/-!
# The load shedder

`AdaptiveLoadShedder` admits a task if its bucket holds the tokens for it, and sheds tasks of low priority when the
node is under pressure. The bucket is filled at a rate that never rises over the larger of the two that are
configured, so what is admitted in a window of time is bounded whatever the pressure does. `try_acquire` awaits
nothing while it holds its lock, so the calls follow one another. Numbers are exact.
-/

namespace MeshWeaver

open Lib

inductive BackpressureStatus where
  | normal | moderate | high | critical
deriving DecidableEq, Repr

structure TokenBucketConfig where
  capacity : Rat := 100
  refillRate : Rat := 50
  minRefillRate : Rat := 5

structure AdaptiveLoadShedder where
  config : TokenBucketConfig
  maxConcurrency : Int
  minConcurrency : Int
  currentConcurrency : Nat
  tokens : Rat
  lastRefill : Rat
  cachedCpu : Rat
  cachedRam : Rat
  totalAdmitted : Nat
  totalShed : Nat

namespace AdaptiveLoadShedder

section Definitions

def new (config : TokenBucketConfig) (maxConcurrency minConcurrency : Int) (now : Rat) : AdaptiveLoadShedder :=
  { config, maxConcurrency, minConcurrency, currentConcurrency := 0, tokens := config.capacity, lastRefill := now,
    cachedCpu := 0, cachedRam := 0, totalAdmitted := 0, totalShed := 0 }

variable (s : AdaptiveLoadShedder)

def updateResourceTelemetry (cpuPercent ramPercent : Rat) : AdaptiveLoadShedder :=
  { s with cachedCpu := max 0 (min 100 cpuPercent), cachedRam := max 0 (min 100 ramPercent) }

def calculateWatermark : Rat :=
  let cpuNorm := s.cachedCpu / 100
  let ramNorm := s.cachedRam / 100
  let concurrencyNorm := min 1 ((s.currentConcurrency : Rat) / (max 1 s.maxConcurrency : Int))
  min 1 (max 0 (45 / 100 * cpuNorm + 35 / 100 * ramNorm + 20 / 100 * concurrencyNorm))

def getStatus : BackpressureStatus :=
  let w := s.calculateWatermark
  if w ≥ 85 / 100 then .critical
  else if w ≥ 75 / 100 then .high
  else if w ≥ 60 / 100 then .moderate
  else .normal

def getEffectiveRefillRate : Rat :=
  let base := s.config.refillRate
  let minRate := s.config.minRefillRate
  match s.getStatus with
  | .critical => minRate
  | .high => max minRate (base * (40 / 100))
  | .moderate => max minRate (base * (75 / 100))
  | .normal => base

def refillTokens (now : Rat) : AdaptiveLoadShedder :=
  let elapsed := max 0 (now - s.lastRefill)
  { s with tokens := min s.config.capacity (s.tokens + elapsed * s.getEffectiveRefillRate), lastRefill := now }

/-- The priority is shed at this pressure. -/
def sheds (priority : Int) : Bool :=
  match s.getStatus with
  | .critical => priority > 1
  | .high => priority ≥ 4
  | _ => false

def tryAcquire (now : Rat) (priority : Int) (cost : Rat) : AdaptiveLoadShedder × Bool :=
  let s := s.refillTokens now
  let shed := { s with totalShed := s.totalShed + 1 }
  if s.sheds priority then (shed, false)
  else if s.currentConcurrency ≥ s.maxConcurrency ∧ priority > 0 then (shed, false)
  else if s.tokens ≥ cost then
    ({ s with
        tokens := s.tokens - cost
        currentConcurrency := s.currentConcurrency + 1
        totalAdmitted := s.totalAdmitted + 1 }, true)
  else (shed, false)

def release : AdaptiveLoadShedder := { s with currentConcurrency := s.currentConcurrency - 1 }

def tuneConcurrencyLimits (targetCpuPercent : Rat) : AdaptiveLoadShedder :=
  if s.cachedCpu > targetCpuPercent then { s with maxConcurrency := max s.minConcurrency (s.maxConcurrency - 1) }
  else if s.cachedCpu < targetCpuPercent - 20 ∧ s.cachedRam < 70 then
    { s with maxConcurrency := min 64 (s.maxConcurrency + 1) }
  else s

def resetMetrics : AdaptiveLoadShedder := { s with totalAdmitted := 0, totalShed := 0 }

end Definitions

inductive Call where
  | tryAcquire (now : Rat) (priority : Int) (cost : Rat)
  | release
  | updateResourceTelemetry (cpuPercent ramPercent : Rat)
  | tuneConcurrencyLimits (targetCpuPercent : Rat)
  | resetMetrics

def perform (s : AdaptiveLoadShedder) : Call → AdaptiveLoadShedder
  | .tryAcquire now priority cost => (s.tryAcquire now priority cost).1
  | .release => s.release
  | .updateResourceTelemetry cpuPercent ramPercent => s.updateResourceTelemetry cpuPercent ramPercent
  | .tuneConcurrencyLimits targetCpuPercent => s.tuneConcurrencyLimits targetCpuPercent
  | .resetMetrics => s.resetMetrics

/-- What a call draws from the bucket: the cost of a task that is admitted. -/
def admitted (s : AdaptiveLoadShedder) : Call → List (Draw Rat)
  | .tryAcquire now priority cost => if (s.tryAcquire now priority cost).2 then [⟨now, cost⟩] else []
  | _ => []

def bucket (s : AdaptiveLoadShedder) : Bucket Rat := ⟨s.tokens, s.lastRefill⟩

variable {s : AdaptiveLoadShedder}

theorem getEffectiveRefillRate_nonneg (hbase : 0 ≤ s.config.refillRate) (hmin : 0 ≤ s.config.minRefillRate) :
    0 ≤ s.getEffectiveRefillRate := by
  unfold getEffectiveRefillRate
  cases s.getStatus with
  | critical => exact hmin
  | high | moderate => exact hmin.trans (le_max_left _ _)
  | normal => exact hbase

theorem getEffectiveRefillRate_le (hbase : 0 ≤ s.config.refillRate) :
    s.getEffectiveRefillRate ≤ max s.config.refillRate s.config.minRefillRate := by
  unfold getEffectiveRefillRate
  cases s.getStatus with
  | critical => exact le_max_right _ _
  | high
  | moderate => exact max_le (le_max_right _ _) ((by linarith : _ ≤ s.config.refillRate).trans (le_max_left _ _))
  | normal => exact le_max_left _ _

/-- **What a call of `try_acquire` does**: the bucket is filled, and the task is shed, or admitted for tokens that
are there. -/
theorem tryAcquire_cases (s : AdaptiveLoadShedder) (now : Rat) (priority : Int) (cost : Rat) :
    let filled := s.refillTokens now
    s.tryAcquire now priority cost = ({ filled with totalShed := filled.totalShed + 1 }, false) ∨
      cost ≤ filled.tokens ∧ s.tryAcquire now priority cost =
        ({ filled with
            tokens := filled.tokens - cost
            currentConcurrency := filled.currentConcurrency + 1
            totalAdmitted := filled.totalAdmitted + 1 }, true) := by
  unfold tryAcquire
  dsimp only
  split_ifs with hstatus hceiling htokens
  · exact Or.inl rfl
  · exact Or.inl rfl
  · exact Or.inr ⟨htokens, rfl⟩
  · exact Or.inl rfl

theorem tuneConcurrencyLimits_eq (s : AdaptiveLoadShedder) (target : Rat) :
    ∃ limit, s.tuneConcurrencyLimits target = { s with maxConcurrency := limit } := by
  unfold tuneConcurrencyLimits
  split_ifs <;> exact ⟨_, rfl⟩

theorem config_perform (s : AdaptiveLoadShedder) (call : Call) : (s.perform call).config = s.config := by
  cases call with
  | tryAcquire now priority cost =>
    rw [perform]
    rcases tryAcquire_cases s now priority cost with h | ⟨-, h⟩ <;> rw [h] <;> rfl
  | tuneConcurrencyLimits target =>
    obtain ⟨limit, h⟩ := tuneConcurrencyLimits_eq s target
    rw [perform, h]
  | _ => rfl

/-! ### The rate of admission -/

def Call.reading? : Call → Option Rat
  | .tryAcquire now _ _ => some now
  | _ => none

def Call.cost : Call → Rat
  | .tryAcquire _ _ cost => cost
  | _ => 0

/-- The clock has not gone back, and the cost is not negative. -/
def Admissible (s : AdaptiveLoadShedder) : Call → Prop
  | .tryAcquire now _ cost => s.lastRefill ≤ now ∧ 0 ≤ cost
  | _ => True

theorem bucket_perform {call : Call} (h : call.reading? = none) : (s.perform call).bucket = s.bucket := by
  cases call with
  | tryAcquire now priority cost => cases h
  | tuneConcurrencyLimits target =>
    obtain ⟨limit, h⟩ := tuneConcurrencyLimits_eq s target
    rw [perform, h]
    rfl
  | _ => rfl

theorem lastRefill_tryAcquire (s : AdaptiveLoadShedder) (now : Rat) (priority : Int) (cost : Rat) :
    (s.tryAcquire now priority cost).1.lastRefill = now := by
  rcases tryAcquire_cases s now priority cost with h | ⟨-, h⟩ <;> rw [h] <;> rfl

theorem admissible_of_ordered {calls : List Call}
    (hclock : (s.lastRefill :: calls.filterMap Call.reading?).IsChain (· ≤ ·))
    (hcost : ∀ call ∈ calls, 0 ≤ call.cost) : Along perform Admissible s calls := by
  induction calls generalizing s with
  | nil => trivial
  | cons call calls ih =>
    obtain ⟨hfirst, hrest⟩ := List.forall_mem_cons.mp hcost
    cases hreading : call.reading? with
    | none =>
      rw [List.filterMap_cons_none hreading] at hclock
      refine ⟨?_, ih ?_ hrest⟩
      · cases call with
        | tryAcquire => cases hreading
        | _ => trivial
      · have hlast : (s.perform call).lastRefill = s.lastRefill := congrArg Bucket.filled (bucket_perform hreading)
        rwa [hlast]
    | some now =>
      cases call with
      | tryAcquire now' priority cost =>
        rw [List.filterMap_cons, Call.reading?, List.isChain_cons_cons] at hclock
        refine ⟨⟨hclock.1, hfirst⟩, ih ?_ hrest⟩
        rw [perform, lastRefill_tryAcquire]
        exact hclock.2
      | _ => cases hreading

theorem refillTokens_spec (hbase : 0 ≤ s.config.refillRate) (hmin : 0 ≤ s.config.minRefillRate) (htokens : 0 ≤ s.tokens)
    (hle : s.tokens ≤ s.config.capacity) {now : Rat} (hclock : s.lastRefill ≤ now) :
    0 ≤ (s.refillTokens now).tokens ∧ (s.refillTokens now).tokens ≤ s.config.capacity ∧
      (s.refillTokens now).tokens ≤
        s.tokens + max s.config.refillRate s.config.minRefillRate * (now - s.lastRefill) := by
  have helapsed : 0 ≤ now - s.lastRefill := sub_nonneg.mpr hclock
  have hgrown := mul_nonneg helapsed (getEffectiveRefillRate_nonneg hbase hmin)
  have hcapped := mul_le_mul_of_nonneg_left (getEffectiveRefillRate_le hbase) helapsed
  rw [refillTokens, max_eq_right helapsed, mul_comm (max _ _)]
  refine ⟨le_min (htokens.trans hle) (add_nonneg htokens hgrown), min_le_left _ _, ?_⟩
  exact (min_le_right _ _).trans (by gcongr)

theorem within_perform {draws : List (Draw Rat)} (hbase : 0 ≤ s.config.refillRate) (hmin : 0 ≤ s.config.minRefillRate)
    (h : s.bucket.Within s.config.capacity (max s.config.refillRate s.config.minRefillRate) draws) {call : Call}
    (hcall : Admissible s call) :
    (s.perform call).bucket.Within s.config.capacity (max s.config.refillRate s.config.minRefillRate)
      (draws ++ s.admitted call) := by
  cases call with
  | tryAcquire now priority cost =>
    obtain ⟨hclock, hcost⟩ := hcall
    have hrate := hbase.trans (le_max_left s.config.refillRate s.config.minRefillRate)
    obtain ⟨hlevel, hfull, hfilled⟩ := refillTokens_spec hbase hmin h.nonneg h.le_capacity hclock
    have htotal : Draw.total [(⟨now, cost⟩ : Draw Rat)] = cost := add_zero cost
    rw [perform, admitted]
    rcases tryAcquire_cases s now priority cost with hshed | ⟨hle, htaken⟩
    · rw [hshed]
      exact h.draw hrate hclock (by simp) le_rfl hlevel ((add_zero _).trans_le hfull) ((add_zero _).trans_le hfilled)
    · have hspent : (s.refillTokens now).tokens - cost + Draw.total [⟨now, cost⟩] = (s.refillTokens now).tokens := by
        rw [htotal, sub_add_cancel]
      rw [htaken]
      exact h.draw hrate hclock (List.forall_mem_singleton.mpr rfl) (hcost.trans htotal.ge) (sub_nonneg.mpr hle)
        (hspent.trans_le hfull) (hspent.trans_le hfilled)
  | _ =>
    rwa [bucket_perform rfl, admitted.eq_def, List.append_nil]

/-! ### The counters -/

def Call.isReset (call : Call) : Bool := call matches .resetMetrics

/-- The number of calls of `try_acquire` since the last reset. -/
def acquiresSinceReset (calls : List Call) : Nat :=
  (calls.rtakeWhile fun call => !call.isReset).countP fun call => call.reading?.isSome

theorem acquiresSinceReset_concat (calls : List Call) (call : Call) :
    acquiresSinceReset (calls ++ [call]) =
      if call.isReset then 0 else acquiresSinceReset calls + if call.reading?.isSome then 1 else 0 := by
  rw [acquiresSinceReset, List.rtakeWhile_concat]
  cases call.isReset with
  | true => rfl
  | false => exact List.countP_append.trans (congrArg _ List.countP_singleton)

theorem totals_run (s : AdaptiveLoadShedder) (hs : s.totalAdmitted + s.totalShed = 0) (calls : List Call) :
    (run perform s calls).totalAdmitted + (run perform s calls).totalShed = acquiresSinceReset calls := by
  induction calls using List.reverseRecOn with
  | nil => exact hs
  | append_singleton calls call ih =>
    rw [run_append, acquiresSinceReset_concat, ← ih, run_cons, run_nil]
    generalize run perform s calls = s
    cases call with
    | tryAcquire now priority cost =>
      rw [perform]
      rcases tryAcquire_cases s now priority cost with h | ⟨-, h⟩
      · rw [h]
        rfl
      · rw [h]
        exact Nat.add_right_comm ..
    | tuneConcurrencyLimits target =>
      obtain ⟨limit, h⟩ := tuneConcurrencyLimits_eq s target
      rw [perform, h]
      rfl
    | _ => rfl

/-- **The rate bound.** In every run the bucket holds between 0 and `capacity` tokens, the cost of what is admitted
from `t₁` to `t₂` is at most the capacity and what the larger rate fills in that time, and the counters add up
to the number of calls since the last reset. -/
theorem admission_bounded (config : TokenBucketConfig) (maxConcurrency minConcurrency : Int) (start : Rat)
    (hcapacity : 0 ≤ config.capacity) (hbase : 0 ≤ config.refillRate) (hmin : 0 ≤ config.minRefillRate)
    (calls : List Call) (hclock : (start :: calls.filterMap Call.reading?).IsChain (· ≤ ·))
    (hcost : ∀ call ∈ calls, 0 ≤ call.cost) :
    let s₀ := new config maxConcurrency minConcurrency start
    let s := run perform s₀ calls
    (0 ≤ s.tokens ∧ s.tokens ≤ config.capacity) ∧
      (∀ t₁ t₂, t₁ ≤ t₂ → Draw.between t₁ t₂ (emitted perform admitted s₀ calls) ≤
        config.capacity + max config.refillRate config.minRefillRate * (t₂ - t₁)) ∧
      s.totalAdmitted + s.totalShed = acquiresSinceReset calls := by
  intro s₀ s
  have hstart : s₀.config = config ∧
      s₀.bucket.Within config.capacity (max config.refillRate config.minRefillRate) [] :=
    ⟨rfl, .start hcapacity (hbase.trans (le_max_left _ _)) start⟩
  obtain ⟨-, hwithin⟩ := Along.invariant_emitted admitted
    (fun s draws => s.config = config ∧
      s.bucket.Within config.capacity (max config.refillRate config.minRefillRate) draws)
    (by
      rintro s call draws ⟨rfl, h⟩ hcall
      exact ⟨config_perform _ call, within_perform hbase hmin h hcall⟩)
    hstart (admissible_of_ordered (s := s₀) hclock hcost)
  exact ⟨⟨hwithin.nonneg, hwithin.le_capacity⟩, hwithin.window, totals_run s₀ rfl calls⟩

/-- Three tasks within a second: the second one asks for more than there is, the third comes under pressure. -/
theorem three_admissions_bounded :
    let s₀ := new {} 16 2 0
    let calls := [.tryAcquire 0 2 60, .tryAcquire (1 / 2) 2 66, .updateResourceTelemetry 100 100, .tryAcquire 1 2 60]
    Draw.between 0 1 (emitted perform admitted s₀ calls) ≤ 100 + max 50 5 * (1 - 0) :=
  (admission_bounded {} 16 2 0 (by decide) (by decide) (by decide) _ (by decide +kernel)
    (by decide +kernel)).2.1 0 1 (by decide)

end AdaptiveLoadShedder

end MeshWeaver
