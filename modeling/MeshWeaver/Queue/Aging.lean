import Mathlib.Algebra.Order.Field.Rat
import MeshWeaver.Queue.Order

/-!
# Bounded overtaking

All tasks gain priority at the same rate as they wait, so what one has gained over another by coming first stays;
a deadline is worth at most twice the boost weight. A task that comes late enough can therefore never get ahead,
and how late is late enough depends on the waiting task only.
-/

namespace MeshWeaver

theorem calculateDeadlineUrgency_bounds (deadline : Option Rat) (now : Rat) {weight : Rat} (h : 0 ≤ weight) :
    0 ≤ calculateDeadlineUrgency deadline now weight ∧ calculateDeadlineUrgency deadline now weight ≤ 2 * weight := by
  cases deadline with
  | none => exact ⟨le_rfl, by rw [calculateDeadlineUrgency]; linarith⟩
  | some deadline =>
    rw [calculateDeadlineUrgency]
    split_ifs with hover hnear
    · constructor <;> linarith
    · have hfactor : 0 ≤ (5 - (deadline - now)) / 5 ∧ (5 - (deadline - now)) / 5 ≤ 1 := by
        constructor <;> linarith
      have hupper := mul_le_mul_of_nonneg_left hfactor.2 h
      exact ⟨mul_nonneg h hfactor.1, by linarith⟩
    · constructor <;> linarith

namespace PrioritizedTask

theorem effectivePriority_bounds {task : PrioritizedTask} {now : Rat} (hA : 0 < task.agingIntervalSeconds)
    (hW : 0 ≤ task.deadlineBoostWeight) (hnow : task.createdAt ≤ now) :
    let aged := (task.basePriority.value : Rat) - (now - task.createdAt) / task.agingIntervalSeconds
    aged - 2 * task.deadlineBoostWeight ≤ task.effectivePriority now ∧ task.effectivePriority now ≤ aged := by
  obtain ⟨hlow, hhigh⟩ := calculateDeadlineUrgency_bounds task.deadline now hW
  rw [effectivePriority, calculateEffectivePriority, if_pos hA, max_eq_right (sub_nonneg.mpr hnow)]
  split_ifs
  · constructor <;> linarith
  · constructor <;> linarith

def AlwaysPrecedes (task other : PrioritizedTask) : Prop :=
  ∀ now, task.createdAt ≤ now → other.createdAt ≤ now → task.lt other now = true

theorem alwaysPrecedes_of_lead {task other : PrioritizedTask} (hA : 0 < task.agingIntervalSeconds)
    (hW : 0 ≤ task.deadlineBoostWeight) (haging : other.agingIntervalSeconds = task.agingIntervalSeconds)
    (hweight : other.deadlineBoostWeight = task.deadlineBoostWeight)
    (hlead : (task.basePriority.value - other.basePriority.value + 2 * task.deadlineBoostWeight + 1 / 10000 : Rat) <
      (other.createdAt - task.createdAt) / task.agingIntervalSeconds) : task.AlwaysPrecedes other := by
  intro now hnow hnow'
  have htask := (effectivePriority_bounds hA hW hnow).2
  have hother := (effectivePriority_bounds (haging ▸ hA) (hweight ▸ hW) hnow').1
  rw [haging, hweight] at hother
  rw [← sub_sub_sub_cancel_left task.createdAt other.createdAt now, sub_div] at hlead
  exact lt_iff.mpr (Or.inl (by linarith))

/-- **Bounded overtaking.** A task precedes every task that is created late enough, at every instant and whatever
their deadlines are; and there is a horizon that is late enough for all of them. -/
theorem precedes_later {A W : Rat} (hA : 0 < A) (hW : 0 ≤ W) {task : PrioritizedTask}
    (haging : task.agingIntervalSeconds = A) (hweight : task.deadlineBoostWeight = W) :
    (∀ other : PrioritizedTask, other.agingIntervalSeconds = A → other.deadlineBoostWeight = W →
      task.createdAt + A * (task.basePriority.value - other.basePriority.value + 2 * W + 1 / 10000) < other.createdAt →
      task.AlwaysPrecedes other) ∧
    ∃ horizon, ∀ other : PrioritizedTask, other.agingIntervalSeconds = A → other.deadlineBoostWeight = W →
      horizon < other.createdAt → task.AlwaysPrecedes other := by
  subst haging hweight
  constructor
  · intro other haging hweight hlater
    refine alwaysPrecedes_of_lead hA hW haging hweight ?_
    rw [lt_div_iff₀ hA]
    linarith
  · refine ⟨task.createdAt + task.agingIntervalSeconds *
      (task.basePriority.value + 2 * task.deadlineBoostWeight + 1 / 10000), fun other haging hweight hlater => ?_⟩
    refine alwaysPrecedes_of_lead hA hW haging hweight ?_
    have hbase : (0 : Rat) ≤ other.basePriority.value := Nat.cast_nonneg _
    have hscaled := mul_nonneg hA.le hbase
    rw [lt_div_iff₀ hA]
    linarith

/-- A background task is ahead of any task that comes sixteen seconds and a bit later. -/
theorem precedes_later_background :
    let task : PrioritizedTask := { taskId := "index", basePriority := .background, createdAt := 0 }
    let other : PrioritizedTask :=
      { taskId := "query", basePriority := .critical, createdAt := 17, deadline := some 10, sequence := 1 }
    task.AlwaysPrecedes other :=
  (precedes_later (by decide +kernel : (0 : Rat) < 2) (by decide +kernel : (0 : Rat) ≤ 2) rfl rfl).1 _ rfl rfl
    (by decide +kernel)

end PrioritizedTask

end MeshWeaver
