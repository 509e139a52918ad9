import MeshWeaver.Lib.Merge

/-!
# Laying windows of one list over another

When the first `q` elements of `M` are already there, merging a window `M(q..e]` into a list leaves that list alone if
it begins with the first `e` elements of `M`, and replaces it by them otherwise (`map_merge_window`). `overlay M e` is
that operation. Any two of them commute (`overlay_comm`), and what one has laid down no other takes away.
-/

namespace MeshWeaver.Lib

variable {α τ : Type} [DecidableEq τ] {key : α → τ} {M G : List τ} {q e n : Nat}

/-- `G`, once the first `e` elements of `M` have been laid over it. -/
def overlay (M : List τ) (e : Nat) (G : List τ) : List τ :=
  if M.take e <+: G then G else M.take e

theorem overlay_of_isPrefix (h : M.take e <+: G) : overlay M e G = G := if_pos h

theorem overlay_of_not_isPrefix (h : ¬ M.take e <+: G) : overlay M e G = M.take e := if_neg h

theorem take_isPrefix_overlay (M : List τ) (e : Nat) (G : List τ) : M.take e <+: overlay M e G := by
  by_cases h : M.take e <+: G
  · rwa [overlay_of_isPrefix h]
  · rw [overlay_of_not_isPrefix h]

omit [DecidableEq τ] in
theorem le_of_take_isPrefix (hn : M.take n <+: G) (he : ¬ M.take e <+: G) : n ≤ e := by
  by_contra hlt
  exact he ((List.take_prefix_take_left (by omega)).trans hn)

theorem take_isPrefix_overlay_of_isPrefix (h : M.take n <+: G) (e : Nat) : M.take n <+: overlay M e G := by
  by_cases he : M.take e <+: G
  · rwa [overlay_of_isPrefix he]
  · rw [overlay_of_not_isPrefix he]
    exact List.take_prefix_take_left (le_of_take_isPrefix h he)

theorem overlay_overlay_of_le {d : Nat} (h : d ≤ e) : overlay M d (overlay M e G) = overlay M e G := by
  apply overlay_of_isPrefix
  exact (List.take_prefix_take_left h).trans (take_isPrefix_overlay M e G)

theorem overlay_of_le {d : Nat} (h : d ≤ e) : overlay M e (overlay M d G) = overlay M e G := by
  by_cases hd : M.take d <+: G
  · rw [overlay_of_isPrefix hd]
  · have he : ¬ M.take e <+: G := fun he => hd ((List.take_prefix_take_left h).trans he)
    rw [overlay_of_not_isPrefix hd, overlay_of_not_isPrefix he]
    by_cases hde : M.take e <+: M.take d
    · rw [overlay_of_isPrefix hde]
      exact (List.take_prefix_take_left h).eq_of_length_le hde.length_le
    · rw [overlay_of_not_isPrefix hde]

/-- **The order does not matter.** -/
theorem overlay_comm (M : List τ) (d e : Nat) (G : List τ) :
    overlay M d (overlay M e G) = overlay M e (overlay M d G) := by
  rcases Nat.le_total d e with h | h
  · rw [overlay_overlay_of_le h, overlay_of_le h]
  · rw [overlay_overlay_of_le h, overlay_of_le h]

/-! ### Merging a window -/

theorem map_mergeBy (old new : List α) : (mergeBy key old new).map key = mergeBy id (old.map key) (new.map key) := by
  induction old generalizing new with
  | nil => simp
  | cons a old ih =>
    cases new with
    | nil => simp
    | cons b new =>
      by_cases hkey : key a = key b
      · rw [mergeBy_cons_of_eq key hkey, List.map_cons, List.map_cons, List.map_cons, ih new]
        exact (mergeBy_cons_of_eq id hkey _ _).symm
      · rw [mergeBy_cons_of_ne key hkey]
        exact (mergeBy_cons_of_ne id hkey _ _).symm

omit [DecidableEq τ] in
theorem matching_id (old new : List τ) : Matching id old new := fun _ _ _ _ _ h => h

omit [DecidableEq τ] in
theorem isPrefix_of_not_conflicts {old new : List τ} (hc : ¬ Conflicts id old new)
    (hlen : new.length ≤ old.length) : new <+: old := by
  induction old generalizing new with
  | nil =>
    rw [List.length_nil, Nat.le_zero, List.length_eq_zero_iff] at hlen
    rw [hlen]
  | cons a old ih =>
    cases new with
    | nil => exact List.nil_prefix
    | cons b new =>
      rw [Conflicts, not_or, not_not] at hc
      rw [List.cons_prefix_cons]
      exact ⟨hc.1.symm, ih hc.2 (by simpa using hlen)⟩

theorem take_isPrefix_mergeBy {old new : List α}
    (h : ∀ k < n, ∀ a b, old[k]? = some a → new[k]? = some b → key a = key b) :
    old.take n <+: mergeBy key old new := by
  induction old generalizing new n with
  | nil => simp
  | cons a old ih =>
    cases n with
    | zero => exact List.nil_prefix
    | succ n =>
      cases new with
      | nil => exact List.take_prefix _ _
      | cons b new =>
        have hkey : key a = key b := h 0 (Nat.succ_pos n) a b rfl rfl
        rw [mergeBy_cons_of_eq key hkey, List.take_succ_cons, List.cons_prefix_cons]
        refine ⟨rfl, ih fun k hk x y hx hy => ?_⟩
        exact h (k + 1) (by omega) x y (by simpa using hx) (by simpa using hy)

theorem take_isPrefix_merge_window {es new : List α} (hn : M.take n <+: es.map key)
    (hnew : new.map key = (M.take e).drop q) : es.take n <+: es.take q ++ mergeBy key (es.drop q) new := by
  rcases Nat.le_total n q with h | h
  · exact (List.take_prefix_take_left h).trans (List.prefix_append _ _)
  · have hsplit : es.take n = es.take q ++ (es.drop q).take (n - q) := by
      conv_lhs => rw [← Nat.add_sub_cancel' h, List.take_add]
    rw [hsplit, List.prefix_append_right_inj]
    apply take_isPrefix_mergeBy
    intro k hk a b ha hb
    have hb' : M[q + k]? = some (key b) := by
      have := congrArg (fun l => l[k]?) hnew
      simp only [List.getElem?_map, hb, List.getElem?_drop, Option.map_some] at this
      exact getElem?_of_isPrefix (List.take_prefix e M) this.symm
    have ha' : (es.map key)[q + k]? = some (key a) := by
      rw [List.getElem?_drop] at ha
      rw [List.getElem?_map, ha, Option.map_some]
    have hb'' : (M.take n)[q + k]? = some (key b) := by
      rw [List.getElem?_take, if_pos (by omega), hb']
    rw [getElem?_of_isPrefix hn hb'', Option.some.injEq] at ha'
    exact ha'.symm

/-- **Merging a window**: nothing changes if the end of the window is already reached, and otherwise
the list ends with the window. -/
theorem map_merge_window {es new : List α} (hpre : M.take q <+: es.map key)
    (hnew : new.map key = (M.take e).drop q) (hqe : q ≤ e) (he : e ≤ M.length) :
    (es.take q ++ mergeBy key (es.drop q) new).map key = overlay M e (es.map key) := by
  have htake : (es.map key).take q = M.take q := by
    rw [List.prefix_iff_eq_take.mp hpre, List.length_take, min_eq_left (hqe.trans he)]
  have hM : M.take q ++ (M.take e).drop q = M.take e := by
    conv_rhs => rw [← List.take_append_drop q (M.take e), List.take_take, min_eq_left hqe]
  rw [List.map_append, map_mergeBy, List.map_take, List.map_drop, hnew, htake]
  rcases mergeBy_cases (matching_id ((es.map key).drop q) ((M.take e).drop q)) with
    ⟨hm, hwhy⟩ | ⟨hm, hno, hlong⟩
  · rw [hm, hM]
    by_cases hall : M.take e <+: es.map key
    · -- the window is there already, so no key differs and the list is not longer
      rw [overlay_of_isPrefix hall]
      have hlen : (es.map key).length ≤ (M.take e).length := by
        rcases hwhy with hc | hle
        · obtain ⟨k, x, y, hx, hy, hne⟩ := (conflicts_iff id).mp hc
          rw [List.getElem?_drop] at hx hy
          have := getElem?_of_isPrefix hall hy
          rw [hx, Option.some.injEq] at this
          exact absurd this hne
        · have := hpre.length_le
          simp only [List.length_drop, List.length_take] at hle this ⊢
          omega
      exact hall.eq_of_length_le hlen
    · rw [overlay_of_not_isPrefix hall]
  · have hall : M.take e <+: es.map key := by
      rw [← hM, ← List.take_append_drop q (es.map key), htake, List.prefix_append_right_inj]
      exact isPrefix_of_not_conflicts hno hlong.le
    rw [hm, ← htake, List.take_append_drop, overlay_of_isPrefix hall]

end MeshWeaver.Lib
