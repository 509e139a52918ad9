import Mathlib.Algebra.BigOperators.Group.List.Basic
import Mathlib.Algebra.Order.Ring.Int
import Mathlib.Data.List.Induction
import Mathlib.Order.Bounds.Basic

/-!
# Sums that do not fall below zero

A counter that adds up steps and stays at zero where it would fall below it has, after any number of steps,
the greatest value that a sum of the last steps can have; the sum of no steps is one of them.
-/

namespace MeshWeaver.Lib

/-- The steps added up, with zero as the floor. -/
def flooredSum (xs : List Int) : Int := xs.foldl (fun n x => max 0 (n + x)) 0

@[simp] theorem flooredSum_nil : flooredSum [] = 0 := rfl

theorem flooredSum_concat (xs : List Int) (x : Int) : flooredSum (xs ++ [x]) = max 0 (flooredSum xs + x) := by
  rw [flooredSum, List.foldl_append]
  rfl

theorem isGreatest_flooredSum (xs : List Int) :
    IsGreatest {s | ∃ i ≤ xs.length, s = (xs.drop i).sum} (flooredSum xs) := by
  induction xs using List.reverseRecOn with
  | nil => exact ⟨⟨0, le_rfl, rfl⟩, by rintro _ ⟨i, -, rfl⟩; simp⟩
  | append_singleton xs x ih =>
    obtain ⟨⟨i, hi, hsum⟩, hupper⟩ := ih
    have hdrop : ∀ j ≤ xs.length, ((xs ++ [x]).drop j).sum = (xs.drop j).sum + x := fun j hj => by
      rw [List.drop_append_of_le_length hj, List.sum_append, List.sum_singleton]
    rw [flooredSum_concat]
    constructor
    · -- the best sum of the old steps goes on, or the empty one starts again
      rcases le_total (flooredSum xs + x) 0 with hneg | hpos
      · refine ⟨(xs ++ [x]).length, le_rfl, ?_⟩
        rw [max_eq_left hneg, List.drop_length, List.sum_nil]
      · refine ⟨i, by rw [List.length_append]; omega, ?_⟩
        rw [max_eq_right hpos, hdrop i hi, hsum]
    · rintro _ ⟨j, hj, rfl⟩
      rcases Nat.lt_or_ge xs.length j with hlast | hold
      · rw [List.drop_of_length_le (by rw [List.length_append, List.length_singleton]; omega), List.sum_nil]
        exact le_max_left _ _
      · rw [hdrop j hold]
        exact (Int.add_le_add_right (hupper ⟨j, hold, rfl⟩) x).trans (le_max_right _ _)

end MeshWeaver.Lib
