import Mathlib.Data.List.Sort
import Mathlib.Data.List.Nodup
import Mathlib.Order.Lattice

/-!
# Sorting by a key

A list sorted by a key that no two of its elements share is the same whatever order the elements came in,
and the first of them are nearer than all that are left out.
-/

namespace MeshWeaver.Lib

variable {α κ : Type} [LinearOrder κ] (key : α → κ)

/-- `sorted(xs, key=key)` -/
def sortBy (xs : List α) : List α := xs.insertionSort fun a b => key a ≤ key b

theorem sortBy_perm (xs : List α) : (sortBy key xs).Perm xs := List.perm_insertionSort _ xs

theorem sortBy_pairwise (xs : List α) : (sortBy key xs).Pairwise fun a b => key a ≤ key b :=
  List.pairwise_insertionSort _ xs

variable {key} {xs ys : List α}

theorem sortBy_increasing (hkeys : (xs.map key).Nodup) : (sortBy key xs).Pairwise fun a b => key a < key b := by
  have hdistinct : (sortBy key xs).Pairwise fun a b => key a ≠ key b := by
    have := ((sortBy_perm key xs).map key).nodup_iff.mpr hkeys
    exact List.pairwise_map.mp this
  exact (sortBy_pairwise key xs).imp₂ (fun a b hle hne => lt_of_le_of_ne hle hne) hdistinct

theorem sortBy_eq_of_perm (h : xs.Perm ys) (hkeys : (xs.map key).Nodup) : sortBy key xs = sortBy key ys := by
  have hperm : (sortBy key xs).Perm (sortBy key ys) :=
    (sortBy_perm key xs).trans (h.trans (sortBy_perm key ys).symm)
  refine hperm.eq_of_pairwise ?_ (sortBy_increasing hkeys) (sortBy_increasing ((h.map key).nodup_iff.mp hkeys))
  intro a b _ _ hab hba
  exact absurd hab hba.asymm

theorem lt_of_mem_take_sortBy (hkeys : (xs.map key).Nodup) {n : Nat} {a b : α} (ha : a ∈ (sortBy key xs).take n)
    (hb : b ∈ xs) (hout : b ∉ (sortBy key xs).take n) : key a < key b := by
  have hincreasing := sortBy_increasing hkeys
  have hmem := (sortBy_perm key xs).mem_iff.mpr hb
  rw [← List.take_append_drop n (sortBy key xs)] at hincreasing hmem
  have hdrop := (List.mem_append.mp hmem).resolve_left hout
  exact (List.pairwise_append.mp hincreasing).2.2 a ha b hdrop

end MeshWeaver.Lib
