import Mathlib.Data.List.Basic
import Mathlib.Data.List.Induction

/-!
# Grouping by keys

Dictionaries whose keys are compared by `==`, any equivalence, as lists of items: two keys that are equal
need not be the same, and the one that came first stays. `groupPairs` collects the values of each key.
-/

namespace MeshWeaver.Lib

variable {κ β γ : Type} [BEq κ]

/-- `d[k] = f(d.get(k))` -/
def alter (k : κ) (f : Option β → β) : List (κ × β) → List (κ × β)
  | [] => [(k, f none)]
  | (k', v) :: items => if k' == k then (k', f (some v)) :: items else (k', v) :: alter k f items

/-- The values of each key: `for k, v in pairs: d[k].append(v)`, from an empty `defaultdict(list)`. -/
def groupPairs (pairs : List (κ × β)) : List (κ × List β) :=
  pairs.foldl (fun d pair => alter pair.1 (fun values => values.getD [] ++ [pair.2]) d) []

/-- `dict(pairs)` -/
def ofPairs (pairs : List (κ × β)) : List (κ × β) :=
  pairs.foldl (fun d pair => alter pair.1 (fun _ => pair.2) d) []

def distinctKeys : List κ → List κ
  | [] => []
  | k :: ks => k :: (distinctKeys ks).filter fun k' => !(k == k')

def valuesOf (k : κ) (pairs : List (κ × β)) : List β := (pairs.filter fun pair => pair.1 == k).map Prod.snd

theorem distinctKeys_concat (ks : List κ) (k : κ) :
    distinctKeys (ks ++ [k]) = if ks.any (· == k) then distinctKeys ks else distinctKeys ks ++ [k] := by
  induction ks with
  | nil => rfl
  | cons a ks ih =>
    rw [List.cons_append, distinctKeys, ih, distinctKeys, List.any_cons]
    by_cases hany : ks.any (· == k) = true
    · rw [if_pos hany, hany, Bool.or_true, if_pos rfl]
    · rw [if_neg hany, Bool.eq_false_iff.mpr hany, Bool.or_false, List.filter_append]
      by_cases hsame : (a == k) = true
      · simp [hsame]
      · simp [hsame]

theorem pairwise_distinctKeys (ks : List κ) : (distinctKeys ks).Pairwise fun a b => (a == b) = false := by
  induction ks with
  | nil => exact .nil
  | cons k ks ih =>
    refine .cons (fun k' hk' => ?_) (ih.filter _)
    simpa using (List.mem_filter.mp hk').2

theorem mem_of_mem_distinctKeys {ks : List κ} {k : κ} (h : k ∈ distinctKeys ks) : k ∈ ks := by
  induction ks with
  | nil => exact h
  | cons a ks ih =>
    rcases List.mem_cons.mp h with rfl | h
    · exact List.mem_cons_self
    · exact List.mem_cons_of_mem _ (ih (List.mem_of_mem_filter h))

theorem alter_of_new {k : κ} (f : Option β → β) {items : List (κ × β)}
    (h : ∀ item ∈ items, (item.1 == k) = false) : alter k f items = items ++ [(k, f none)] := by
  induction items with
  | nil => rfl
  | cons item items ih =>
    obtain ⟨hitem, hitems⟩ := List.forall_mem_cons.mp h
    rw [alter, if_neg (by simp [hitem]), ih hitems, List.cons_append]

section
variable [EquivBEq κ]

theorem alter_of_old {k : κ} (f : Option β → β) (g : κ → β) {ks : List κ}
    (hks : ks.Pairwise fun a b => (a == b) = false) (h : ks.any (· == k) = true) :
    alter k f (ks.map fun k' => (k', g k')) = ks.map fun k' => (k', if k' == k then f (some (g k')) else g k') := by
  induction ks with
  | nil => cases h
  | cons a ks ih =>
    obtain ⟨hfirst, hrest⟩ := List.pairwise_cons.mp hks
    rw [List.map_cons, List.map_cons, alter]
    by_cases hsame : (a == k) = true
    · rw [if_pos hsame, if_pos hsame]
      congr 1
      refine List.map_congr_left fun k' hk' => ?_
      have hother : (k' == k) = false := by
        rw [← BEq.congr_right hsame, BEq.comm]
        exact hfirst k' hk'
      rw [hother]
      rfl
    · rw [if_neg hsame, if_neg hsame, ih hrest]
      simpa [hsame] using h

theorem any_distinctKeys (ks : List κ) (k : κ) : (distinctKeys ks).any (· == k) = ks.any (· == k) := by
  rw [Bool.eq_iff_iff, List.any_eq_true, List.any_eq_true]
  constructor
  · rintro ⟨a, ha, hsame⟩
    exact ⟨a, mem_of_mem_distinctKeys ha, hsame⟩
  · rintro ⟨a, ha, hsame⟩
    induction ks with
    | nil => cases ha
    | cons b ks ih =>
      by_cases hb : (b == k) = true
      · exact ⟨b, List.mem_cons_self, hb⟩
      · rcases List.mem_cons.mp ha with rfl | ha
        · exact absurd hsame hb
        · obtain ⟨c, hc, hck⟩ := ih ha
          refine ⟨c, List.mem_cons_of_mem _ (List.mem_filter.mpr ⟨hc, ?_⟩), hck⟩
          rw [BEq.congr_right hck]
          simpa using hb

omit [EquivBEq κ] in
theorem valuesOf_concat (k : κ) (pairs : List (κ × β)) (pair : κ × β) :
    valuesOf k (pairs ++ [pair]) = valuesOf k pairs ++ if pair.1 == k then [pair.2] else [] := by
  rw [valuesOf, List.filter_append, List.map_append, List.filter_singleton]
  cases pair.1 == k <;> rfl

/-- **The groups**: each key where it came first, with all its values in order. -/
theorem groupPairs_eq (pairs : List (κ × β)) :
    groupPairs pairs = (distinctKeys (pairs.map Prod.fst)).map fun k => (k, valuesOf k pairs) := by
  induction pairs using List.reverseRecOn with
  | nil => rfl
  | append_singleton pairs pair ih =>
    obtain ⟨k, v⟩ := pair
    have hstep : groupPairs (pairs ++ [(k, v)]) =
        alter k (fun values => values.getD [] ++ [v]) (groupPairs pairs) := List.foldl_concat ..
    rw [hstep, ih, List.map_append, List.map_singleton, distinctKeys_concat]
    by_cases hany : (pairs.map Prod.fst).any (· == k) = true
    · rw [if_pos hany, alter_of_old _ _ (pairwise_distinctKeys _) (by rwa [any_distinctKeys])]
      refine List.map_congr_left fun k' _ => ?_
      rw [valuesOf_concat, BEq.comm]
      split_ifs
      · rfl
      · rw [List.append_nil]
    · have hnew : ∀ k' ∈ pairs.map Prod.fst, (k' == k) = false := by simpa using hany
      rw [if_neg hany, alter_of_new, List.map_append, List.map_singleton]
      · have hold : ∀ k' ∈ distinctKeys (pairs.map Prod.fst),
            valuesOf k' (pairs ++ [(k, v)]) = valuesOf k' pairs := by
          intro k' hk'
          have hother : (k == k') = false := by
            rw [BEq.comm]
            exact hnew k' (mem_of_mem_distinctKeys hk')
          rw [valuesOf_concat, hother]
          exact List.append_nil _
        have hnone : valuesOf k pairs = [] := by
          rw [valuesOf, List.map_eq_nil_iff, List.filter_eq_nil_iff]
          exact fun pair hpair => by simp [hnew pair.1 (List.mem_map_of_mem hpair)]
        have hmap : (distinctKeys (pairs.map Prod.fst)).map (fun k' => (k', valuesOf k' (pairs ++ [(k, v)]))) =
            (distinctKeys (pairs.map Prod.fst)).map fun k' => (k', valuesOf k' pairs) :=
          List.map_congr_left fun k' hk' => by rw [hold k' hk']
        rw [hmap, valuesOf_concat, hnone, BEq.rfl]
        rfl
      · intro item hitem
        obtain ⟨k', hk', rfl⟩ := List.mem_map.mp hitem
        exact hnew k' (mem_of_mem_distinctKeys hk')

end

theorem ofPairs_eq_self {pairs : List (κ × β)} (h : pairs.Pairwise fun a b => (a.1 == b.1) = false) :
    ofPairs pairs = pairs := by
  induction pairs using List.reverseRecOn with
  | nil => rfl
  | append_singleton pairs pair ih =>
    have hstep : ofPairs (pairs ++ [pair]) = alter pair.1 (fun _ => pair.2) (ofPairs pairs) :=
      List.foldl_concat ..
    obtain ⟨hpairs, -, hnew⟩ := List.pairwise_append.mp h
    rw [hstep, ih hpairs, alter_of_new]
    exact fun item hitem => hnew item hitem pair List.mem_cons_self

end MeshWeaver.Lib
