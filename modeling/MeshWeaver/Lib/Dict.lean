import Mathlib.Data.List.Nodup
import Mathlib.Data.List.Lemmas

/-!
# Insertion-ordered dictionaries

`Dict κ β` is a list of key/value pairs without repeated keys, in the order in which the keys were
first inserted: assigning to a key that is present keeps its place, a new key goes to the end. The
order is observable when the items are listed, so two dictionaries are equal when they list the
same items in the same order.
-/

namespace MeshWeaver.Lib

/-- A dictionary that remembers the order in which its keys were inserted. -/
structure Dict (κ β : Type) where
  items : List (κ × β)
  nodup : (items.map Prod.fst).Nodup

namespace Dict

variable {κ β : Type}

@[ext] theorem ext' {d e : Dict κ β} (h : d.items = e.items) : d = e := by
  cases d; cases e; simpa using h

instance [DecidableEq κ] [DecidableEq β] : DecidableEq (Dict κ β) := fun d e =>
  decidable_of_iff (d.items = e.items) ⟨ext', fun h => h ▸ rfl⟩

def empty : Dict κ β := ⟨[], List.nodup_nil⟩

def keys (d : Dict κ β) : List κ := d.items.map Prod.fst

def values (d : Dict κ β) : List β := d.items.map Prod.snd

section
variable [DecidableEq κ] {k : κ} {v : β} {d : Dict κ β} {l : List (κ × β)}

def lookup (k : κ) : List (κ × β) → Option β
  | [] => none
  | (k', v) :: rest => if k' = k then some v else lookup k rest

def assign (k : κ) (v : β) : List (κ × β) → List (κ × β)
  | [] => [(k, v)]
  | (k', w) :: rest => if k' = k then (k', v) :: rest else (k', w) :: assign k v rest

theorem mem_map_assign (k : κ) (v : β) (l : List (κ × β)) (x : κ) :
    x ∈ (assign k v l).map Prod.fst ↔ x = k ∨ x ∈ l.map Prod.fst := by
  induction l with
  | nil => simp [assign]
  | cons p rest ih =>
    obtain ⟨k', w⟩ := p
    by_cases hk : k' = k
    · simp [assign, hk]
    · simp only [assign, if_neg hk, List.map_cons, List.mem_cons, ih]
      tauto

theorem nodup_assign (k : κ) (v : β) (l : List (κ × β)) (h : (l.map Prod.fst).Nodup) :
    ((assign k v l).map Prod.fst).Nodup := by
  induction l with
  | nil => simp [assign]
  | cons p rest ih =>
    obtain ⟨k', w⟩ := p
    rw [List.map_cons, List.nodup_cons] at h
    by_cases hk : k' = k
    · rwa [assign, if_pos hk, List.map_cons, List.nodup_cons]
    · simp only [assign, if_neg hk, List.map_cons, List.nodup_cons, mem_map_assign]
      exact ⟨fun hmem => hmem.elim hk h.1, ih h.2⟩

/-- `d.get(k)` -/
def get? (d : Dict κ β) (k : κ) : Option β := lookup k d.items

/-- `d[k] = v` -/
def insert (d : Dict κ β) (k : κ) (v : β) : Dict κ β :=
  ⟨assign k v d.items, nodup_assign k v d.items d.nodup⟩

/-- `d.pop(k, None)`, without the value it returns -/
def erase (d : Dict κ β) (k : κ) : Dict κ β :=
  ⟨d.items.filter (fun p => p.1 ≠ k), d.nodup.sublist (List.Sublist.map _ List.filter_sublist)⟩

/-- `{k: v for k, v in d.items() if p(v)}` -/
def filterValues (d : Dict κ β) (p : β → Bool) : Dict κ β :=
  ⟨d.items.filter (fun q => p q.2), d.nodup.sublist (List.Sublist.map _ List.filter_sublist)⟩

/-- `{k: f(v) for k, v in d.items()}` -/
def mapValues (d : Dict κ β) (f : β → β) : Dict κ β :=
  ⟨d.items.map (fun q => (q.1, f q.2)), by
    rw [List.map_map]
    exact d.nodup⟩

@[simp] theorem get?_empty (k : κ) : (empty : Dict κ β).get? k = none := rfl

theorem lookup_assign (k : κ) (v : β) (l : List (κ × β)) (x : κ) :
    lookup x (assign k v l) = if x = k then some v else lookup x l := by
  induction l with
  | nil => simp [assign, lookup, eq_comm]
  | cons p rest ih =>
    obtain ⟨k', w⟩ := p
    by_cases hk : k' = k
    · subst hk
      by_cases hx : x = k'
      · simp [assign, lookup, hx]
      · simp [assign, lookup, hx, Ne.symm hx]
    · by_cases hx : k' = x
      · subst hx
        simp [assign, lookup, hk]
      · simp [assign, lookup, hk, hx, ih]

theorem get?_insert (d : Dict κ β) (k : κ) (v : β) (x : κ) :
    (d.insert k v).get? x = if x = k then some v else d.get? x :=
  lookup_assign k v d.items x

@[simp] theorem get?_insert_self (d : Dict κ β) (k : κ) (v : β) : (d.insert k v).get? k = some v := by
  rw [get?_insert, if_pos rfl]

theorem get?_insert_of_ne (d : Dict κ β) {k x : κ} (v : β) (h : x ≠ k) : (d.insert k v).get? x = d.get? x := by
  rw [get?_insert, if_neg h]

theorem lookup_filter_ne (k : κ) (l : List (κ × β)) (x : κ) :
    lookup x (l.filter (fun p => p.1 ≠ k)) = if x = k then none else lookup x l := by
  induction l with
  | nil => simp [lookup]
  | cons p rest ih =>
    obtain ⟨k', w⟩ := p
    by_cases hk : k' = k
    · subst hk
      by_cases hx : x = k'
      · rw [List.filter_cons_of_neg (by simp), ih, if_pos hx]
        simp [hx]
      · rw [List.filter_cons_of_neg (by simp), ih]
        simp [lookup, hx, Ne.symm hx]
    · rw [List.filter_cons_of_pos (by simpa using hk)]
      by_cases hx : k' = x
      · subst hx
        simp [lookup, hk]
      · rw [lookup, lookup, if_neg hx, if_neg hx, ih]

theorem get?_erase (d : Dict κ β) (k x : κ) : (d.erase k).get? x = if x = k then none else d.get? x :=
  lookup_filter_ne k d.items x

theorem mem_of_lookup_eq_some : ∀ {l : List (κ × β)}, lookup k l = some v → (k, v) ∈ l := by
  intro l
  induction l with
  | nil => intro h; simp [lookup] at h
  | cons p rest ih =>
    obtain ⟨k', w⟩ := p
    intro h
    by_cases hk : k' = k
    · simp only [lookup, if_pos hk, Option.some.injEq] at h
      simp [hk, h]
    · simp only [lookup, if_neg hk] at h
      exact List.mem_cons_of_mem _ (ih h)

theorem lookup_eq_some_of_mem : ∀ {l : List (κ × β)}, (l.map Prod.fst).Nodup → (k, v) ∈ l → lookup k l = some v := by
  intro l
  induction l with
  | nil => intro _ h; simp at h
  | cons p rest ih =>
    obtain ⟨k', w⟩ := p
    intro hnd h
    rw [List.map_cons, List.nodup_cons] at hnd
    rcases List.mem_cons.mp h with heq | hmem
    · cases heq
      simp [lookup]
    · have hk : k' ≠ k := by
        rintro rfl
        exact hnd.1 (List.mem_map.mpr ⟨_, hmem, rfl⟩)
      simp only [lookup, if_neg hk]
      exact ih hnd.2 hmem

omit [DecidableEq κ] in
theorem filterValues_eq_self (d : Dict κ β) (p : β → Bool) (h : ∀ v ∈ d.values, p v = true) :
    d.filterValues p = d := by
  refine ext' (List.filter_eq_self.mpr fun q hq => ?_)
  exact h q.2 (List.mem_map_of_mem hq)

theorem mem_items_iff (d : Dict κ β) (k : κ) (v : β) : (k, v) ∈ d.items ↔ d.get? k = some v :=
  ⟨lookup_eq_some_of_mem d.nodup, mem_of_lookup_eq_some⟩

theorem mem_keys_insert (d : Dict κ β) (k : κ) (v : β) (x : κ) : x ∈ (d.insert k v).keys ↔ x = k ∨ x ∈ d.keys :=
  mem_map_assign k v d.items x

theorem forall_mem_items_insert {P : κ × β → Prop} (h : ∀ item ∈ d.items, P item)
    (hnew : P (k, v)) : ∀ item ∈ (d.insert k v).items, P item := by
  rintro ⟨x, w⟩ hitem
  rw [mem_items_iff, get?_insert] at hitem
  split_ifs at hitem with hx
  · rwa [hx, ← Option.some_inj.mp hitem]
  · exact h (x, w) ((mem_items_iff d x w).mpr hitem)

theorem items_foldl_erase_sublist (ks : List κ) (d : Dict κ β) : (ks.foldl erase d).items.Sublist d.items := by
  induction ks generalizing d with
  | nil => exact List.Sublist.refl _
  | cons k ks ih => exact (ih (d.erase k)).trans List.filter_sublist

theorem get?_foldl_erase (ks : List κ) (d : Dict κ β) (x : κ) :
    (ks.foldl erase d).get? x = if x ∈ ks then none else d.get? x := by
  induction ks generalizing d with
  | nil => simp
  | cons k ks ih =>
    rw [List.foldl_cons, ih, get?_erase]
    by_cases hx : x = k <;> simp [hx]

theorem lookup_eq_none_iff (k : κ) (l : List (κ × β)) : lookup k l = none ↔ k ∉ l.map Prod.fst := by
  induction l with
  | nil => simp [lookup]
  | cons p rest ih =>
    obtain ⟨k', w⟩ := p
    by_cases hk : k' = k
    · simp [lookup, hk]
    · simp [lookup, hk, Ne.symm hk, ih]

theorem get?_eq_none_iff (d : Dict κ β) (k : κ) : d.get? k = none ↔ k ∉ d.keys :=
  lookup_eq_none_iff k d.items

theorem erase_eq_self (h : d.get? k = none) : d.erase k = d := by
  refine ext' (List.filter_eq_self.mpr fun q hq => ?_)
  have hk : k ∉ d.keys := (get?_eq_none_iff d k).mp h
  have hne : q.1 ≠ k := by
    rintro rfl
    exact hk (List.mem_map_of_mem hq)
  simpa using hne

theorem assign_eq_self : ∀ {l : List (κ × β)}, lookup k l = some v → assign k v l = l := by
  intro l
  induction l with
  | nil => intro h; simp [lookup] at h
  | cons p rest ih =>
    obtain ⟨k', w⟩ := p
    intro h
    by_cases hk : k' = k
    · simp only [lookup, if_pos hk, Option.some.injEq] at h
      rw [assign, if_pos hk, h]
    · simp only [lookup, if_neg hk] at h
      rw [assign, if_neg hk, ih h]

theorem assign_of_notMem (h : k ∉ l.map Prod.fst) : assign k v l = l ++ [(k, v)] := by
  induction l with
  | nil => rfl
  | cons p rest ih =>
    rw [List.map_cons, List.mem_cons, not_or] at h
    rw [assign, if_neg (Ne.symm h.1), ih h.2]
    rfl

theorem assign_concat {v w : β} (h : k ∉ l.map Prod.fst) : assign k w (l ++ [(k, v)]) = l ++ [(k, w)] := by
  induction l with
  | nil => simp [assign]
  | cons p rest ih =>
    rw [List.map_cons, List.mem_cons, not_or] at h
    rw [List.cons_append, assign, if_neg (Ne.symm h.1), ih h.2]
    rfl

theorem insert_eq_self (h : d.get? k = some v) : d.insert k v = d :=
  ext' (assign_eq_self h)

theorem countP_assign (p : β → Bool) (k : κ) (v : β) (l : List (κ × β)) :
    ((assign k v l).map Prod.snd).countP p + ((lookup k l).toList.countP p) =
      (l.map Prod.snd).countP p + [v].countP p := by
  induction l with
  | nil => simp [assign, lookup]
  | cons q rest ih =>
    obtain ⟨k', w⟩ := q
    by_cases hk : k' = k
    · simp only [assign, lookup, if_pos hk, List.map_cons, List.countP_cons, Option.toList_some,
        List.countP_nil]
      omega
    · simp only [assign, lookup, if_neg hk, List.map_cons, List.countP_cons] at ih ⊢
      omega

theorem countP_values_insert (d : Dict κ β) (p : β → Bool) (k : κ) (v : β) :
    (d.insert k v).values.countP p + (d.get? k).toList.countP p = d.values.countP p + [v].countP p :=
  countP_assign p k v d.items

theorem countP_filter_ne (p : β → Bool) (k : κ) (h : (l.map Prod.fst).Nodup) :
    ((l.filter fun q => q.1 ≠ k).map Prod.snd).countP p + (lookup k l).toList.countP p =
      (l.map Prod.snd).countP p := by
  induction l with
  | nil => simp [lookup]
  | cons q rest ih =>
    obtain ⟨k', w⟩ := q
    rw [List.map_cons, List.nodup_cons] at h
    have hrest := ih h.2
    by_cases hk : k' = k
    · have hnone : lookup k rest = none := (lookup_eq_none_iff k rest).mpr (hk ▸ h.1)
      rw [List.filter_cons_of_neg (by simpa using hk), lookup, if_pos hk, List.map_cons, List.countP_cons]
      simp only [hnone, Option.toList_none, Option.toList_some, List.countP_cons, List.countP_nil] at hrest ⊢
      omega
    · rw [List.filter_cons_of_pos (by simpa using hk), lookup, if_neg hk, List.map_cons, List.map_cons,
        List.countP_cons, List.countP_cons]
      omega

theorem countP_values_erase (d : Dict κ β) (p : β → Bool) (k : κ) :
    (d.erase k).values.countP p + (d.get? k).toList.countP p = d.values.countP p :=
  countP_filter_ne p k d.nodup

theorem length_items_insert (d : Dict κ β) (k : κ) (v : β) :
    (d.insert k v).items.length + (d.get? k).toList.length = d.items.length + 1 := by
  have hcount := countP_values_insert d (fun _ => true) k v
  simpa [values, List.countP_true] using hcount

theorem length_items_erase (d : Dict κ β) (k : κ) :
    (d.erase k).items.length + (d.get? k).toList.length = d.items.length := by
  have hcount := countP_values_erase d (fun _ => true) k
  simpa [values, List.countP_true] using hcount

theorem le_countP_values_insert_iff {n : Nat} (hn : d.items.length < n) (p : β → Bool) (k : κ) (v : β) :
    n ≤ (d.insert k v).values.countP p ↔
      d.items.length + 1 = n ∧ (∀ w ∈ d.values, p w = true) ∧ d.get? k = none ∧ p v = true := by
  have hcount := countP_values_insert d p k v
  have hle : d.values.countP p ≤ d.items.length := by
    rw [← List.length_map (f := Prod.snd)]
    exact List.countP_le_length
  have hnew : [v].countP p = if p v = true then 1 else 0 := by simp [List.countP_cons]
  constructor
  · intro h
    have hv : p v = true := by
      by_contra hv
      rw [if_neg hv] at hnew
      omega
    rw [if_pos hv] at hnew
    have hall : ∀ w ∈ d.values, p w = true := by
      rw [← List.countP_eq_length, values, List.length_map]
      change d.values.countP p = _
      omega
    refine ⟨by omega, hall, ?_, hv⟩
    cases hk : d.get? k with
    | none => rfl
    | some w =>
      have hw := hall w (List.mem_map_of_mem ((mem_items_iff d k w).mpr hk))
      have hold : (d.get? k).toList.countP p = 1 := by simp [hk, hw]
      omega
  · rintro ⟨hlength, hall, hk, hv⟩
    have hfull : d.values.countP p = d.items.length := by
      rw [List.countP_eq_length.mpr hall, values, List.length_map]
    have hold : (d.get? k).toList.countP p = 0 := by simp [hk]
    rw [if_pos hv] at hnew
    omega

theorem get?_filterValues (d : Dict κ β) (p : β → Bool) (k : κ) (v : β) :
    (d.filterValues p).get? k = some v ↔ d.get? k = some v ∧ p v = true := by
  rw [← mem_items_iff, ← mem_items_iff]
  exact List.mem_filter

theorem get?_mapValues (d : Dict κ β) (f : β → β) (k : κ) : (d.mapValues f).get? k = (d.get? k).map f := by
  change lookup k (d.items.map _) = (lookup k d.items).map f
  induction d.items with
  | nil => rfl
  | cons p rest ih =>
    obtain ⟨k', w⟩ := p
    by_cases hk : k' = k
    · simp [lookup, hk]
    · simp [lookup, hk, ih]

theorem exists_get?_of_mem_values (h : v ∈ d.values) : ∃ k, d.get? k = some v := by
  obtain ⟨⟨k, w⟩, hmem, rfl⟩ := List.mem_map.mp h
  exact ⟨k, (mem_items_iff d k w).mp hmem⟩

end

end Dict

theorem forall_getElem?_modify {α : Type} {P : Nat → α → Prop} {l : List α} {i : Nat} {f : α → α}
    (h : ∀ j a, l[j]? = some a → P j a) (hf : ∀ a, l[i]? = some a → P i (f a)) :
    ∀ j a, (l.modify i f)[j]? = some a → P j a := by
  intro j a hj
  rw [List.getElem?_modify, Option.map_eq_map, Option.map_eq_some_iff] at hj
  obtain ⟨c, hc, rfl⟩ := hj
  split_ifs with hij
  · subst hij
    exact hf c hc
  · exact h j c hc

theorem forall_mem_modify {α : Type} {P : α → Prop} {l : List α} {i : Nat} {f : α → α}
    (h : ∀ a ∈ l, P a) (hf : ∀ a, l[i]? = some a → P (f a)) : ∀ a ∈ l.modify i f, P a := by
  intro a ha
  obtain ⟨j, hj⟩ := List.mem_iff_getElem?.mp ha
  exact forall_getElem?_modify (P := fun _ => P) (fun _ b hb => h b (List.mem_of_getElem? hb)) hf j a hj

end MeshWeaver.Lib
