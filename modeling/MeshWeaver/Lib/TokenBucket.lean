import Mathlib.Algebra.BigOperators.Group.List.Basic
import Mathlib.Tactic.Linarith
import Mathlib.Tactic.Ring

/-!
# Token buckets

A bucket holds at most `capacity` tokens, is filled at no more than `rate` tokens in a unit of time, and what is
admitted is drawn from it. Then the cost of what is admitted between any two times `s` and `t` is at most
`capacity + rate * (t - s)` (`Within.window`), however the rate changes below its bound and whatever is refused.
-/

namespace MeshWeaver.Lib

variable {K : Type*} [CommRing K] [LinearOrder K]

structure Draw (K : Type*) where
  time : K
  cost : K

namespace Draw

def total (draws : List (Draw K)) : K := (draws.map cost).sum

/-- The cost of what is drawn from `s` to `t`. -/
def between (s t : K) (draws : List (Draw K)) : K := total (draws.filter fun d => s ≤ d.time ∧ d.time ≤ t)

variable {s t now : K} {draws new : List (Draw K)}

@[simp] theorem between_nil : between s t ([] : List (Draw K)) = 0 := rfl

theorem between_append : between s t (draws ++ new) = between s t draws + between s t new := by
  rw [between, total, List.filter_append, List.map_append, List.sum_append]
  rfl

theorem between_eq_zero (h : ∀ d ∈ draws, d.time < s) : between s t draws = 0 := by
  rw [between, List.filter_eq_nil_iff.mpr]
  · rfl
  · intro d hd
    simp [h d hd]

theorem between_of_time_eq (h : ∀ d ∈ new, d.time = now) :
    between s t new = if s ≤ now ∧ now ≤ t then total new else 0 := by
  have hfilter : new.filter (fun d => s ≤ d.time ∧ d.time ≤ t) = new.filter fun _ => s ≤ now ∧ now ≤ t :=
    List.filter_congr fun d hd => by rw [h d hd]
  rw [between, hfilter]
  split_ifs with hin
  · simp [hin]
  · simp [hin, total]

theorem between_congr {t' : K} (h : ∀ d ∈ draws, d.time ≤ t) (h' : ∀ d ∈ draws, d.time ≤ t') :
    between s t draws = between s t' draws := by
  rw [between]
  congr 1
  exact List.filter_congr fun d hd => by simp [h d hd, h' d hd]

end Draw

structure Bucket (K : Type*) where
  level : K
  filled : K

/-- A bucket of that capacity and rate, from which `draws` have been drawn. -/
structure Bucket.Within (capacity rate : K) (b : Bucket K) (draws : List (Draw K)) : Prop where
  nonneg : 0 ≤ b.level
  le_capacity : b.level ≤ capacity
  before : ∀ d ∈ draws, d.time ≤ b.filled
  since : ∀ s ≤ b.filled, Draw.between s b.filled draws + b.level ≤ capacity + rate * (b.filled - s)
  window : ∀ s t, s ≤ t → Draw.between s t draws ≤ capacity + rate * (t - s)

namespace Bucket.Within

open Draw (total between)

variable [IsStrictOrderedRing K] {capacity rate : K} {b b' : Bucket K} {draws new : List (Draw K)}

theorem start (hcapacity : 0 ≤ capacity) (hrate : 0 ≤ rate) (now : K) : Within capacity rate ⟨capacity, now⟩ [] where
  nonneg := hcapacity
  le_capacity := le_rfl
  before := by simp
  since s hs := by
    rw [Draw.between_nil, zero_add]
    exact le_add_of_nonneg_right (mul_nonneg hrate (sub_nonneg.mpr hs))
  window s t hst := by
    exact add_nonneg hcapacity (mul_nonneg hrate (sub_nonneg.mpr hst))

/-- **One draw.** The bucket is filled up to the time of the draw, at most at `rate`, and `new` is drawn. -/
theorem draw (h : Within capacity rate b draws) (hrate : 0 ≤ rate) (hclock : b.filled ≤ b'.filled)
    (hnew : ∀ d ∈ new, d.time = b'.filled) (htotal : 0 ≤ total new) (hlevel : 0 ≤ b'.level)
    (hcapacity : b'.level + total new ≤ capacity)
    (hfilled : b'.level + total new ≤ b.level + rate * (b'.filled - b.filled)) :
    Within capacity rate b' (draws ++ new) := by
  have hold : ∀ d ∈ draws, d.time ≤ b'.filled := fun d hd => (h.before d hd).trans hclock
  -- a window that ends no earlier than the draw
  have hsince : ∀ s ≤ b'.filled, between s b'.filled (draws ++ new) + b'.level ≤ capacity + rate * (b'.filled - s) := by
    intro s hs
    rw [Draw.between_append, Draw.between_of_time_eq hnew, if_pos ⟨hs, le_rfl⟩]
    rcases le_or_gt s b.filled with hbefore | hafter
    · have hpast := h.since s hbefore
      rw [Draw.between_congr h.before hold] at hpast
      linarith
    · have hzero : between s b'.filled draws = 0 :=
        Draw.between_eq_zero fun d hd => (h.before d hd).trans_lt hafter
      have hgrown := mul_nonneg hrate (sub_nonneg.mpr hs)
      linarith
  refine ⟨hlevel, by linarith, fun d hd => ?_, hsince, fun s t hst => ?_⟩
  · rcases List.mem_append.mp hd with hd | hd
    · exact hold d hd
    · exact (hnew d hd).le
  · by_cases hin : s ≤ b'.filled ∧ b'.filled ≤ t
    · have hall : ∀ d ∈ draws ++ new, d.time ≤ b'.filled := fun d hd =>
        (List.mem_append.mp hd).elim (hold d) fun hd => (hnew d hd).le
      have hlast := hsince s hin.1
      rw [Draw.between_congr hall fun d hd => (hall d hd).trans hin.2] at hlast
      have hmono := mul_le_mul_of_nonneg_left (sub_le_sub_right hin.2 s) hrate
      linarith
    · rw [Draw.between_append, Draw.between_of_time_eq hnew, if_neg hin, add_zero]
      exact h.window s t hst

end Bucket.Within

end MeshWeaver.Lib
