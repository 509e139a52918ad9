import Mathlib.Data.List.Basic
import Mathlib.Data.List.Infix

/-!
# Merging a list into another along a key

`mergeBy key old new` keeps the elements of `old` as long as the keys agree, and goes on with `new` from the first
place where they do not, or where `old` ends. If elements at the same place with the same key are equal
(`Matching`), the result is `new` when some key differs or `old` is not longer, and `old` otherwise.
-/

namespace MeshWeaver.Lib

variable {α τ : Type} (key : α → τ) {old new : List α}

theorem getElem?_of_isPrefix {es fs : List α} (h : es <+: fs) {k : Nat} {e : α}
    (he : es[k]? = some e) : fs[k]? = some e := by
  obtain ⟨rest, rfl⟩ := h
  rw [List.getElem?_append_left (List.getElem?_eq_some_iff.mp he).1, he]

def Matching (old new : List α) : Prop :=
  ∀ (k : Nat) (a b : α), old[k]? = some a → new[k]? = some b → key a = key b → a = b

theorem Matching.tail {a b : α} (h : Matching key (a :: old) (b :: new)) : Matching key old new :=
  fun k x y hx hy => h (k + 1) x y (by simpa using hx) (by simpa using hy)

variable {key} in
theorem Matching.head {a b : α} (h : Matching key (a :: old) (b :: new)) (hkey : key a = key b) : a = b :=
  h 0 a b rfl rfl hkey

def Conflicts : List α → List α → Prop
  | a :: old, b :: new => key a ≠ key b ∨ Conflicts old new
  | _, _ => False

instance Conflicts.decidable [DecidableEq τ] : ∀ old new, Decidable (Conflicts key old new)
  | [], _ => .isFalse id
  | _ :: _, [] => .isFalse id
  | a :: old, b :: new =>
    have := Conflicts.decidable old new
    inferInstanceAs (Decidable (key a ≠ key b ∨ Conflicts key old new))

theorem conflicts_iff :
    Conflicts key old new ↔ ∃ (k : Nat) (a b : α), old[k]? = some a ∧ new[k]? = some b ∧ key a ≠ key b := by
  induction old generalizing new with
  | nil => simp [Conflicts]
  | cons a old ih =>
    cases new with
    | nil => simp [Conflicts]
    | cons b new =>
      rw [Conflicts, ih]
      constructor
      · rintro (hne | ⟨k, x, y, hx, hy, hne⟩)
        · exact ⟨0, a, b, rfl, rfl, hne⟩
        · exact ⟨k + 1, x, y, by simpa using hx, by simpa using hy, hne⟩
      · rintro ⟨k, x, y, hx, hy, hne⟩
        cases k with
        | zero =>
          simp only [List.getElem?_cons_zero, Option.some.injEq] at hx hy
          exact Or.inl (hx ▸ hy ▸ hne)
        | succ k => exact Or.inr ⟨k, x, y, by simpa using hx, by simpa using hy, hne⟩

theorem conflicts_append (common old new : List α) :
    Conflicts key (common ++ old) (common ++ new) ↔ Conflicts key old new := by
  induction common with
  | nil => rfl
  | cons a common ih => simp [Conflicts, ih]

section merge
variable [DecidableEq τ]

/-- Keep `old` while the keys agree, then go on with `new`. -/
def mergeBy : List α → List α → List α
  | old, [] => old
  | [], new => new
  | a :: old, b :: new => if key a = key b then a :: mergeBy old new else b :: new

@[simp] theorem mergeBy_nil_right (old : List α) : mergeBy key old [] = old := by
  cases old <;> rfl

@[simp] theorem mergeBy_nil_left (new : List α) : mergeBy key [] new = new := by
  cases new <;> rfl

theorem mergeBy_cons_of_eq {a b : α} (h : key a = key b) (old new : List α) :
    mergeBy key (a :: old) (b :: new) = a :: mergeBy key old new := by
  rw [mergeBy, if_pos h]

theorem mergeBy_cons_of_ne {a b : α} (h : key a ≠ key b) (old new : List α) :
    mergeBy key (a :: old) (b :: new) = b :: new := by
  rw [mergeBy, if_neg h]

variable {key}

theorem mergeBy_of_conflicts (hm : Matching key old new)
    (hc : Conflicts key old new) : mergeBy key old new = new := by
  induction old generalizing new with
  | nil => exact hc.elim
  | cons a old ih =>
    cases new with
    | nil => exact hc.elim
    | cons b new =>
      by_cases hkey : key a = key b
      · have hrest : Conflicts key old new := hc.resolve_left (fun h => h hkey)
        rw [mergeBy_cons_of_eq key hkey, ih hm.tail hrest, hm.head hkey]
      · exact mergeBy_cons_of_ne key hkey old new

theorem mergeBy_of_length_le (hm : Matching key old new)
    (hlen : old.length ≤ new.length) : mergeBy key old new = new := by
  induction old generalizing new with
  | nil => exact mergeBy_nil_left key new
  | cons a old ih =>
    cases new with
    | nil => simp at hlen
    | cons b new =>
      by_cases hkey : key a = key b
      · rw [mergeBy_cons_of_eq key hkey, ih hm.tail (by simpa using hlen), hm.head hkey]
      · exact mergeBy_cons_of_ne key hkey old new

theorem isPrefix_mergeBy (hm : Matching key old new) : new <+: mergeBy key old new := by
  induction old generalizing new with
  | nil => rw [mergeBy_nil_left]
  | cons a old ih =>
    cases new with
    | nil => exact List.nil_prefix
    | cons b new =>
      by_cases hkey : key a = key b
      · rw [mergeBy_cons_of_eq key hkey, hm.head hkey]
        exact List.cons_prefix_cons.mpr ⟨rfl, ih hm.tail⟩
      · rw [mergeBy_cons_of_ne key hkey]

theorem mergeBy_of_not_conflicts (hc : ¬ Conflicts key old new)
    (hlen : new.length ≤ old.length) : mergeBy key old new = old := by
  induction old generalizing new with
  | nil =>
    rw [List.length_nil, Nat.le_zero, List.length_eq_zero_iff] at hlen
    rw [hlen, mergeBy_nil_right]
  | cons a old ih =>
    cases new with
    | nil => exact mergeBy_nil_right key _
    | cons b new =>
      rw [Conflicts, not_or, not_not] at hc
      rw [mergeBy_cons_of_eq key hc.1, ih hc.2 (by simpa using hlen)]

theorem mergeBy_of_first {k : Nat} {a b : α} (ha : old[k]? = some a) (hb : new[k]? = some b) (hne : key a ≠ key b)
    (hbefore : ∀ i < k, ∀ x y, old[i]? = some x → new[i]? = some y → key x = key y) :
    mergeBy key old new = old.take k ++ new.drop k := by
  induction k generalizing old new with
  | zero =>
    obtain ⟨rest, rfl⟩ : ∃ rest, old = a :: rest := List.head?_eq_some_iff.mp (List.head?_eq_getElem? ▸ ha)
    obtain ⟨rest', rfl⟩ : ∃ rest', new = b :: rest' := List.head?_eq_some_iff.mp (List.head?_eq_getElem? ▸ hb)
    exact mergeBy_cons_of_ne key hne rest rest'
  | succ k ih =>
    cases old with
    | nil => cases ha
    | cons x old =>
      cases new with
      | nil => cases hb
      | cons y new =>
        have hhead : key x = key y := hbefore 0 k.succ_pos x y rfl rfl
        rw [mergeBy_cons_of_eq key hhead, List.take_succ_cons, List.drop_succ_cons, List.cons_append]
        exact congrArg (x :: ·) (ih ha hb fun i hi => hbefore (i + 1) (Nat.succ_lt_succ hi))

theorem mergeBy_of_not_conflicts_of_le (hc : ¬ Conflicts key old new)
    (hlen : old.length ≤ new.length) : mergeBy key old new = old ++ new.drop old.length := by
  induction old generalizing new with
  | nil => exact mergeBy_nil_left key new
  | cons a old ih =>
    cases new with
    | nil => simp at hlen
    | cons b new =>
      rw [Conflicts, not_or, not_not] at hc
      rw [mergeBy_cons_of_eq key hc.1, ih hc.2 (by simpa using hlen), List.length_cons, List.drop_succ_cons,
        List.cons_append]

/-- **Merging matching lists yields one of the two.** -/
theorem mergeBy_cases (hm : Matching key old new) :
    (mergeBy key old new = new ∧ (Conflicts key old new ∨ old.length ≤ new.length)) ∨
      (mergeBy key old new = old ∧ ¬ Conflicts key old new ∧ new.length < old.length) := by
  by_cases hc : Conflicts key old new
  · exact Or.inl ⟨mergeBy_of_conflicts hm hc, Or.inl hc⟩
  · rcases Nat.lt_or_ge new.length old.length with hlt | hge
    · exact Or.inr ⟨mergeBy_of_not_conflicts hc hlt.le, hc, hlt⟩
    · exact Or.inl ⟨mergeBy_of_length_le hm hge, Or.inr hge⟩

end merge

end MeshWeaver.Lib
