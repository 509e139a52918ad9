import Mathlib.Data.Finset.Card

/-!
# Majorities

`Majority members Q`: the set `Q` of members has at least `⌊n/2⌋ + 1` elements, `n` being the number
of members. Two majorities of the same membership share a member.
-/

namespace MeshWeaver.Lib

variable {α : Type} [DecidableEq α]

/-- `Q` is a majority of `members`. -/
def Majority (members Q : Finset α) : Prop :=
  Q ⊆ members ∧ members.card / 2 + 1 ≤ Q.card

namespace Majority

variable {members Q R : Finset α}

/-- **Majorities intersect.** -/
theorem exists_mem_both (hQ : Majority members Q) (hR : Majority members R) : ∃ x, x ∈ Q ∧ x ∈ R := by
  by_contra hnone
  have hdisj : Disjoint Q R :=
    Finset.disjoint_left.mpr fun x hxQ hxR => hnone ⟨x, hxQ, hxR⟩
  have hle : (Q ∪ R).card ≤ members.card :=
    Finset.card_le_card (Finset.union_subset hQ.1 hR.1)
  rw [Finset.card_union_of_disjoint hdisj] at hle
  have hQ' := hQ.2
  have hR' := hR.2
  omega

end Majority

end MeshWeaver.Lib
