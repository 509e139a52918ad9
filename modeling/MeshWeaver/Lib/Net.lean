import Mathlib.Logic.Function.Basic
import Mathlib.Data.List.Basic

/-!
# Nodes that exchange messages

`Net ι σ μ`: a state for every node, and every message ever sent. Messages are never taken out, so a
run that hands over any of them at any time covers loss, delay, duplication and reordering. A step
changes one node and adds what it sends.
-/

namespace MeshWeaver.Lib

structure Net (ι σ μ : Type) where
  node : ι → σ
  sent : List μ

namespace Net

variable {ι σ μ : Type} [DecidableEq ι] {s : Net ι σ μ} {i j : ι} {x : σ} {out : List μ}

def update (s : Net ι σ μ) (i : ι) (x : σ) (out : List μ) : Net ι σ μ :=
  ⟨Function.update s.node i x, s.sent ++ out⟩

@[simp] theorem update_node_self : (s.update i x out).node i = x := Function.update_self ..

@[simp] theorem update_node_of_ne (h : j ≠ i) : (s.update i x out).node j = s.node j :=
  Function.update_of_ne h ..

theorem update_node (s : Net ι σ μ) (i : ι) (x : σ) (out : List μ) (j : ι) :
    (s.update i x out).node j = if j = i then x else s.node j := by
  by_cases h : j = i
  · rw [if_pos h, h, update_node_self]
  · rw [if_neg h, update_node_of_ne h]

@[simp] theorem mem_sent_update {m : μ} : m ∈ (s.update i x out).sent ↔ m ∈ s.sent ∨ m ∈ out :=
  List.mem_append

theorem forall_node_update {P : ι → σ → Prop} (hi : P i x) (hother : ∀ j, j ≠ i → P j (s.node j)) :
    ∀ j, P j ((s.update i x out).node j) := by
  intro j
  by_cases h : j = i
  · subst h
    rwa [update_node_self]
  · rw [update_node_of_ne h]
    exact hother j h

end Net

end MeshWeaver.Lib
