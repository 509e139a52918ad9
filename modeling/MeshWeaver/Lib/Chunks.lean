import Mathlib.Data.List.Basic

/-!
# Slices of equal size, and folds without a start

`chunks size xs` are the slices `xs[i : i + size]` for `i = 0, size, 2 * size, …`; `foldFirst f xs` folds `f`
from the left, starting at the first element. For an associative `f` it does not matter whether the slices
are folded first and then their results.
-/

namespace MeshWeaver.Lib

variable {α β : Type}

/-! ### Slices -/

/-- `[xs[i : i + size] for i in range(0, len(xs), size)]` -/
def chunks (size : Nat) (xs : List α) : List (List α) :=
  (List.range ((xs.length + size - 1) / size)).map fun i => (xs.drop (i * size)).take size

theorem length_chunks (size : Nat) (xs : List α) : (chunks size xs).length = (xs.length + size - 1) / size := by
  rw [chunks, List.length_map, List.length_range]

theorem length_le_of_mem_chunks {size : Nat} {xs chunk : List α} (h : chunk ∈ chunks size xs) :
    chunk.length ≤ size := by
  obtain ⟨i, -, rfl⟩ := List.mem_map.mp h
  rw [List.length_take]
  exact Nat.min_le_left _ _

section
variable {size : Nat} (hsize : 0 < size)
include hsize

@[simp] theorem chunks_nil : chunks size ([] : List α) = [] := by
  rw [chunks, List.length_nil, Nat.div_eq_of_lt (by omega)]
  rfl

theorem chunks_of_ne_nil {xs : List α} (h : xs ≠ []) :
    chunks size xs = xs.take size :: chunks size (xs.drop size) := by
  have hpos := List.length_pos_of_ne_nil h
  have hcount : (xs.length + size - 1) / size = (xs.length - size + size - 1) / size + 1 := by
    rw [← Nat.add_div_right _ hsize]
    rcases Nat.le_total xs.length size with hle | hle
    · rw [Nat.div_eq_of_lt_le (k := 1) (by omega) (by omega),
        Nat.div_eq_of_lt_le (k := 1) (by omega) (by omega)]
    · congr 1
      omega
  rw [chunks, hcount, List.range_succ_eq_map, List.map_cons, List.map_map, chunks, List.length_drop]
  simp [Function.comp_def, Nat.add_mul, Nat.add_comm]

theorem drop_induction {P : List α → Prop} (nil : P []) (step : ∀ xs, xs ≠ [] → P (xs.drop size) → P xs) :
    ∀ xs, P xs := by
  intro xs
  induction hn : xs.length using Nat.strongRecOn generalizing xs with
  | _ n ih =>
    cases xs with
    | nil => exact nil
    | cons x xs =>
      refine step _ (List.cons_ne_nil _ _) (ih _ ?_ _ rfl)
      rw [← hn, List.length_drop, List.length_cons]
      omega

theorem flatten_chunks (xs : List α) : (chunks size xs).flatten = xs := by
  induction xs using drop_induction hsize with
  | nil => rw [chunks_nil hsize, List.flatten_nil]
  | step xs hne ih => rw [chunks_of_ne_nil hsize hne, List.flatten_cons, ih, List.take_append_drop]

end

/-! ### Folds -/

/-- `functools.reduce(f, xs)`; `none` where there is nothing to fold. -/
def foldFirst (f : α → α → α) : List α → Option α
  | [] => none
  | x :: xs => some (xs.foldl f x)

@[simp] theorem foldFirst_nil (f : α → α → α) : foldFirst f [] = none := rfl

section
variable (f : α → α → α) [Std.Associative f]

theorem foldFirst_append (xs ys : List α) :
    foldFirst f (xs ++ ys) = Option.merge f (foldFirst f xs) (foldFirst f ys) := by
  cases xs with
  | nil => simp
  | cons x xs =>
    cases ys with
    | nil => simp
    | cons y ys =>
      rw [List.cons_append, foldFirst, foldFirst, foldFirst, List.foldl_append, List.foldl_cons,
        List.foldl_assoc]
      rfl

/-- **Folding in groups**: the results of the groups, folded in their order, are the fold of all. -/
theorem foldFirst_filterMap (groups : List (List α)) :
    foldFirst f (groups.filterMap (foldFirst f)) = foldFirst f groups.flatten := by
  induction groups with
  | nil => rfl
  | cons group groups ih =>
    rw [List.flatten_cons, foldFirst_append, ← ih]
    cases h : foldFirst f group with
    | none => simp [List.filterMap_cons_none h]
    | some v =>
      rw [List.filterMap_cons_some h, ← List.singleton_append, foldFirst_append]
      rfl

end

end MeshWeaver.Lib
