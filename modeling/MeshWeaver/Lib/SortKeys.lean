import Mathlib.Data.List.Pairwise
import Mathlib.Data.List.Sort
import MeshWeaver.Lib.PyData

/-!
# Sorted keys

With `sort_keys` the keys of a dictionary are sorted as they are, not as they are written, so what is read back
can have another order: `sortKeys_json_iff` says when it has not.
-/

namespace MeshWeaver.Lib

/-! ### Two orders -/

theorem insertionSort_eq_iff {α : Type} {r s : α → α → Prop} [DecidableRel r] [DecidableRel s] [Std.Total r]
    [IsTrans α r] [Std.Total s] [IsTrans α s] {l : List α} (hr : ∀ a ∈ l, ∀ b ∈ l, r a b → r b a → a = b)
    (hs : ∀ a ∈ l, ∀ b ∈ l, s a b → s b a → a = b) :
    l.insertionSort s = l.insertionSort r ↔ ∀ a ∈ l, ∀ b ∈ l, r a b ↔ s a b := by
  constructor
  · intro heq
    have hsorted : (l.insertionSort r).Pairwise fun a b => r a b ∧ s a b :=
      (List.pairwise_insertionSort r l).and (heq ▸ List.pairwise_insertionSort s l)
    have heither : (l.insertionSort r).Pairwise fun a b => (r a b ∧ s a b) ∨ (r b a ∧ s b a) :=
      hsorted.imp Or.inl
    have hsymm : Std.Symm fun a b => (r a b ∧ s a b) ∨ (r b a ∧ s b a) := ⟨fun _ _ h => Or.symm h⟩
    intro a ha b hb
    by_cases hab : a = b
    · subst hab
      exact iff_of_true ((Std.Total.total a a).elim id id) ((Std.Total.total a a).elim id id)
    · have hmem : ∀ c ∈ l, c ∈ l.insertionSort r := fun c hc => (List.mem_insertionSort r).mpr hc
      rcases heither.forall (hmem a ha) (hmem b hb) hab with ⟨h, h'⟩ | ⟨h, h'⟩
      · exact iff_of_true h h'
      · exact iff_of_false (fun hback => hab (hr a ha b hb hback h)) fun hback => hab (hs a ha b hb hback h')
  · intro h
    have hmap := List.map_insertionSort r s id l h
    rw [List.map_id, List.map_id] at hmap
    exact hmap.symm

theorem eq_of_perm_of_map_fst {κ β : Type} {l l' : List (κ × β)} (hperm : l.Perm l')
    (hkeys : l.map Prod.fst = l'.map Prod.fst) (hnodup : (l.map Prod.fst).Nodup) : l = l' := by
  induction l generalizing l' with
  | nil => exact hperm.nil_eq
  | cons p l ih =>
    obtain ⟨k, v⟩ := p
    cases l' with
    | nil => exact hperm.eq_nil
    | cons q l' =>
      obtain ⟨k', w⟩ := q
      rw [List.map_cons, List.map_cons, List.cons.injEq] at hkeys
      obtain ⟨rfl, hkeys⟩ : k = k' ∧ _ := hkeys
      rw [List.map_cons, List.nodup_cons] at hnodup
      have hvalue : (k, v) = (k, w) := by
        rcases List.mem_cons.mp (hperm.subset List.mem_cons_self) with heq | hmem
        · exact heq
        · exact absurd (hkeys ▸ List.mem_map_of_mem hmem) hnodup.1
      rw [hvalue, ih (List.Perm.cons_inv (hvalue ▸ hperm)) hkeys hnodup.2]

open Json (FloatFormat)

/-! ### Sorted values -/

namespace Json

variable {fmt : FloatFormat Rat}

theorem properMembers_iff {items : List (String × Json Rat)} :
    ProperMembers fmt items ↔ ∀ item ∈ items, item.2.Proper fmt := by
  induction items with
  | nil => simp [ProperMembers]
  | cons item items ih =>
    rw [ProperMembers, List.forall_mem_cons, ih]

theorem map_fst_sortMembers (items : List (String × Json Rat)) :
    (sortMembers items).map Prod.fst = items.map Prod.fst := by
  induction items with
  | nil => rfl
  | cons item items ih =>
    rw [sortMembers, List.map_cons, List.map_cons, ih]

theorem proper_obj_of_perm {items items' : List (String × Json Rat)} (hperm : items.Perm items')
    (h : (Json.obj items').Proper fmt) : (Json.obj items).Proper fmt :=
  ⟨(hperm.map Prod.fst).nodup_iff.mpr h.1,
    properMembers_iff.mpr fun item hitem => properMembers_iff.mp h.2 item (hperm.subset hitem)⟩

mutual

theorem proper_sortKeys : ∀ j : Json Rat, j.Proper fmt → j.sortKeys.Proper fmt
  | .null, h | .bool _, h | .int _, h | .float _, h | .str _, h => h
  | .arr xs, h => properElements_sortElements xs h
  | .obj items, h => by
    rw [sortKeys]
    refine proper_obj_of_perm (List.perm_insertionSort _ _) ⟨?_, properMembers_sortMembers items h.2⟩
    rw [map_fst_sortMembers]
    exact h.1

theorem properElements_sortElements : ∀ xs : List (Json Rat), ProperElements fmt xs →
    ProperElements fmt (sortElements xs)
  | [], _ => trivial
  | x :: xs, h => ⟨proper_sortKeys x h.1, properElements_sortElements xs h.2⟩

theorem properMembers_sortMembers : ∀ items : List (String × Json Rat), ProperMembers fmt items →
    ProperMembers fmt (sortMembers items)
  | [], _ => trivial
  | (_, x) :: items, h => ⟨proper_sortKeys x h.1, properMembers_sortMembers items h.2⟩

end

theorem print_injective {j j' : Json Rat} (hj : j.Proper fmt) (hj' : j'.Proper fmt)
    (h : print fmt j = print fmt j') : j = j' := by
  have hread := loads_print fmt hj
  rw [h, loads_print fmt hj'] at hread
  exact (Option.some_inj.mp hread).symm

end Json

/-! ### The order of keys -/

namespace DataKey

def chars : DataKey → Text
  | .str s => s.toList
  | _ => []

/-- `a <= b`; keys of different kinds, which `sorted` refuses, stand in the order of their kinds. -/
def le (a b : DataKey) : Bool :=
  a.kind < b.kind || a.kind = b.kind && (a.number?.getD 0 < b.number?.getD 0 ||
    a.number?.getD 0 = b.number?.getD 0 && Text.precedes a.chars b.chars)

theorem le_iff {a b : DataKey} : a.le b = true ↔ a.kind < b.kind ∨ a.kind = b.kind ∧
    (a.number?.getD 0 < b.number?.getD 0 ∨
      a.number?.getD 0 = b.number?.getD 0 ∧ Text.precedes a.chars b.chars = true) := by
  simp [le]

theorem le_total (a b : DataKey) : a.le b = true ∨ b.le a = true := by
  rw [le_iff, le_iff]
  rcases Nat.lt_trichotomy a.kind b.kind with hlt | heq | hgt
  · exact Or.inl (Or.inl hlt)
  · rcases lt_trichotomy (a.number?.getD 0) (b.number?.getD 0) with hless | hequal | hmore
    · exact Or.inl (Or.inr ⟨heq, Or.inl hless⟩)
    · exact (Text.precedes_total a.chars b.chars).imp (fun h => Or.inr ⟨heq, Or.inr ⟨hequal, h⟩⟩)
        fun h => Or.inr ⟨heq.symm, Or.inr ⟨hequal.symm, h⟩⟩
    · exact Or.inr (Or.inr ⟨heq.symm, Or.inl hmore⟩)
  · exact Or.inr (Or.inl hgt)

theorem le_trans {a b c : DataKey} (hab : a.le b = true) (hbc : b.le c = true) : a.le c = true := by
  rw [le_iff] at hab hbc ⊢
  rcases hab with hab | ⟨hkind, hab⟩
  · rcases hbc with hbc | ⟨hkind, -⟩ <;> omega
  · rcases hbc with hbc | ⟨hkind', hbc⟩
    · omega
    · refine Or.inr ⟨hkind.trans hkind', ?_⟩
      rcases hab with hab | ⟨hvalue, hab⟩
      · rcases hbc with hbc | ⟨hvalue, -⟩
        · exact Or.inl (hab.trans hbc)
        · exact Or.inl (hvalue ▸ hab)
      · rcases hbc with hbc | ⟨hvalue', hbc⟩
        · exact Or.inl (hvalue ▸ hbc)
        · exact Or.inr ⟨hvalue.trans hvalue', Text.precedes_trans hab hbc⟩

theorem same_of_number_eq {a b : DataKey} (ha : a.kind = 1) (hb : b.kind = 1)
    (h : a.number?.getD 0 = b.number?.getD 0) : a.same b = true := by
  have hsome : ∀ k : DataKey, k.kind = 1 → k.number? = some (k.number?.getD 0) := by
    intro k hk
    cases k with
    | none | str s => cases hk
    | _ => rfl
  rw [same, hsome a ha, hsome b hb, h]
  simp

theorem same_of_le_of_le {a b : DataKey} (hab : a.le b = true) (hba : b.le a = true) : a.same b = true := by
  rw [le_iff] at hab hba
  have hkind : a.kind = b.kind := by
    rcases hab with h | ⟨h, -⟩ <;> rcases hba with h' | ⟨h', -⟩ <;> omega
  have hab := (hab.resolve_left (by omega)).2
  have hba := (hba.resolve_left (by omega)).2
  have hvalue : a.number?.getD 0 = b.number?.getD 0 := by
    rcases hab with h | ⟨h, -⟩
    · rcases hba with h' | ⟨h', -⟩
      · exact absurd h (lt_asymm h')
      · exact h'.symm
    · exact h
  have hchars : a.chars = b.chars := by
    have hnot : ¬ a.number?.getD 0 < b.number?.getD 0 := hvalue ▸ lt_irrefl _
    have hnot' : ¬ b.number?.getD 0 < a.number?.getD 0 := hvalue ▸ lt_irrefl _
    exact Text.precedes_antisymm (hab.resolve_left hnot).2 (hba.resolve_left hnot').2
  cases a with
  | none =>
    cases b with
    | none => rfl
    | _ => cases hkind
  | str s =>
    cases b with
    | str t =>
      have hst : s = t := String.toList_inj.mp hchars
      simp [same, hst]
    | _ => cases hkind
  | _ => exact same_of_number_eq rfl hkind.symm hvalue

end DataKey

/-! ### Sorted objects -/

namespace PyData

def Sortable (x : PyData) : Prop := ∀ a ∈ x.keys, ∀ b ∈ x.keys, a.kind = b.kind
deriving Decidable

section
variable (fmt : FloatFormat Rat)

def Exact (x : PyData) : Prop :=
  (∀ q, x = .float q → fmt.Exact q) ∧ ∀ k ∈ x.keys, ∀ q, k = .float q → fmt.Exact q

/-- What `json.dumps(x, sort_keys=True)` accepts. -/
structure Writable (x : PyData) : Prop where
  distinct : x.Distinct
  sortable : x.Sortable
  exact : x.Exact fmt

/-- The keys have the order of the strings that are written for them. -/
def InOrder (x : PyData) : Prop :=
  ∀ a ∈ x.keys, ∀ b ∈ x.keys, a.le b = Text.precedes (a.text fmt).toList (b.text fmt).toList
deriving Decidable

mutual

/-- The value that `json.dumps(x, sort_keys=True)` writes. -/
def sortedJson : PyData → Json Rat
  | .seq _ xs => .arr (sortedElements xs)
  | .dict items =>
    .obj (((sortedItems items).insertionSort fun a b => a.1.le b.1).map fun item => (item.1.text fmt, item.2))
  | x => x.json fmt

def sortedElements : List PyData → List (Json Rat)
  | [] => []
  | x :: xs => x.sortedJson :: sortedElements xs

def sortedItems : List (DataKey × PyData) → List (DataKey × Json Rat)
  | [] => []
  | (k, x) :: items => (k, x.sortedJson) :: sortedItems items

end

end

variable {fmt : FloatFormat Rat}

/-! ### What is written can be read -/

variable (items : List (DataKey × PyData))

theorem map_fst_sortedItems : (sortedItems fmt items).map Prod.fst = items.map Prod.fst := by
  induction items with
  | nil => rfl
  | cons item items ih =>
    rw [sortedItems, List.map_cons, List.map_cons, ih]

theorem Writable.unambiguous {x : PyData} (h : x.Writable fmt) : x.Unambiguous fmt :=
  h.distinct.nodup_keys.map_on fun a ha b hb htext =>
    DataKey.eq_of_text_eq (h.sortable a ha b hb) (h.exact.2 a ha) (h.exact.2 b hb) htext

mutual

theorem proper_json : ∀ x : PyData, x.All (Writable fmt) →
    (x.json fmt).Proper fmt
  | .none, _ | .bool _, _ | .int _, _ => trivial
  | .float q, h => h.exact.1 q rfl
  | .str _, _ => trivial
  | .seq _ xs, h => properElements_json xs h.2
  | .dict items, h => ⟨unambiguous_dict_iff.mp h.1.unambiguous, properMembers_json items h.2⟩

theorem properElements_json : ∀ xs : List PyData, AllElements (Writable fmt) xs →
    Json.ProperElements fmt (jsonElements fmt xs)
  | [], _ => trivial
  | x :: xs, h =>
    ⟨proper_json x h.1, properElements_json xs h.2⟩

theorem properMembers_json : ∀ items : List (DataKey × PyData), AllItems (Writable fmt) items →
    Json.ProperMembers fmt (jsonItems fmt items)
  | [], _ => trivial
  | (_, x) :: items, h =>
    ⟨proper_json x h.1, properMembers_json items h.2⟩

end

theorem map_text_sortedItems :
    (sortedItems fmt items).map (fun item => item.1.text fmt) = items.map fun item => item.1.text fmt := by
  have hfst : (sortedItems fmt items).map Prod.fst = items.map Prod.fst := map_fst_sortedItems items
  have hmap := congrArg (List.map (DataKey.text fmt)) hfst
  rw [List.map_map, List.map_map] at hmap
  exact hmap

mutual

theorem proper_sortedJson : ∀ x : PyData, x.All (Writable fmt) →
    (x.sortedJson fmt).Proper fmt
  | .none, _ | .bool _, _ | .int _, _ => trivial
  | .float q, h => h.exact.1 q rfl
  | .str _, _ => trivial
  | .seq _ xs, h => properElements_sortedJson xs h.2
  | .dict items, h => by
    have hnodup := unambiguous_dict_iff.mp h.1.unambiguous
    rw [map_fst_jsonItems] at hnodup
    rw [sortedJson]
    refine Json.proper_obj_of_perm ((List.perm_insertionSort _ _).map _) ⟨?_, ?_⟩
    · rw [List.map_map]
      change ((sortedItems fmt items).map fun item => item.1.text fmt).Nodup
      rwa [map_text_sortedItems]
    · exact properMembers_sortedJson items h.2

theorem properElements_sortedJson : ∀ xs : List PyData, AllElements (Writable fmt) xs →
    Json.ProperElements fmt (sortedElements fmt xs)
  | [], _ => trivial
  | x :: xs, h =>
    ⟨proper_sortedJson x h.1,
      properElements_sortedJson xs h.2⟩

theorem properMembers_sortedJson : ∀ items : List (DataKey × PyData), AllItems (Writable fmt) items →
    Json.ProperMembers fmt ((sortedItems fmt items).map fun item => (item.1.text fmt, item.2))
  | [], _ => trivial
  | (_, x) :: items, h =>
    ⟨proper_sortedJson x h.1,
      properMembers_sortedJson items h.2⟩

end

/-! ### Sorting before and behind -/

section
variable {members : List (String × Json Rat)} {items : List (DataKey × Json Rat)}

theorem eq_of_le_of_le (hdistinct : (items.map Prod.fst).Pairwise fun a b => a.same b = false)
    {a b : DataKey × Json Rat} (ha : a ∈ items) (hb : b ∈ items) (hab : a.1.le b.1 = true)
    (hba : b.1.le a.1 = true) : a = b := by
  by_contra hne
  have hsymm : Std.Symm fun a b : DataKey × Json Rat => a.1.same b.1 = false :=
    ⟨fun a b h => (DataKey.same_comm b.1 a.1).trans h⟩
  have hdiffer := (List.pairwise_map.mp hdistinct).forall ha hb hne
  rw [DataKey.same_of_le_of_le hab hba] at hdiffer
  cases hdiffer

/-- **Sorting one dictionary**: the members are sorted by their strings as the items by their keys, exactly
when the values are the same and the keys have the order of the strings. -/
theorem insertionSort_members_iff (hkeys : members.map Prod.fst = items.map fun item => item.1.text fmt)
    (hdistinct : (items.map Prod.fst).Pairwise fun a b => a.same b = false)
    (htexts : (items.map fun item => item.1.text fmt).Nodup) :
    members.insertionSort (fun a b => Text.precedes a.1.toList b.1.toList) =
        (items.insertionSort fun a b => a.1.le b.1).map (fun item => (item.1.text fmt, item.2)) ↔
      members = items.map (fun item => (item.1.text fmt, item.2)) ∧
        ∀ a ∈ items.map Prod.fst, ∀ b ∈ items.map Prod.fst,
          a.le b = Text.precedes (a.text fmt).toList (b.text fmt).toList := by
  let r : DataKey × Json Rat → DataKey × Json Rat → Prop := fun a b => a.1.le b.1
  let s : DataKey × Json Rat → DataKey × Json Rat → Prop :=
    fun a b => Text.precedes (a.1.text fmt).toList (b.1.text fmt).toList
  let s' : String × Json Rat → String × Json Rat → Prop := fun a b => Text.precedes a.1.toList b.1.toList
  let f : DataKey × Json Rat → String × Json Rat := fun item => (item.1.text fmt, item.2)
  have : Std.Total r := ⟨fun a b => DataKey.le_total a.1 b.1⟩
  have : IsTrans _ r := ⟨fun _ _ _ => DataKey.le_trans⟩
  have : Std.Total s := ⟨fun _ _ => Text.precedes_total _ _⟩
  have : IsTrans _ s := ⟨fun _ _ _ => Text.precedes_trans⟩
  have : Std.Total s' := ⟨fun _ _ => Text.precedes_total _ _⟩
  have : IsTrans _ s' := ⟨fun _ _ _ => Text.precedes_trans⟩
  have hs : ∀ a ∈ items, ∀ b ∈ items, s a b → s b a → a = b := fun a ha b hb hab hba =>
    List.inj_on_of_nodup_map htexts ha hb (String.toList_inj.mp (Text.precedes_antisymm hab hba))
  have hr : ∀ a ∈ items, ∀ b ∈ items, r a b → r b a → a = b := fun a ha b hb =>
    eq_of_le_of_le hdistinct ha hb
  have hmap : (items.map f).insertionSort s' = (items.insertionSort s).map f :=
    (List.map_insertionSort s s' f items fun _ _ _ _ => Iff.rfl).symm
  have hiff : (∀ a ∈ items.map Prod.fst, ∀ b ∈ items.map Prod.fst,
      a.le b = Text.precedes (a.text fmt).toList (b.text fmt).toList) ↔
      ∀ a ∈ items, ∀ b ∈ items, r a b ↔ s a b := by
    rw [List.forall_mem_map]
    refine forall₂_congr fun a _ => ?_
    rw [List.forall_mem_map]
    exact forall₂_congr fun b _ => Bool.eq_iff_iff
  rw [hiff, ← insertionSort_eq_iff hr hs]
  constructor
  · intro h
    have hmembers : members = items.map f := by
      refine eq_of_perm_of_map_fst ?_ ?_ (hkeys ▸ htexts)
      · exact ((List.perm_insertionSort s' members).symm.trans (.of_eq h)).trans
          ((List.perm_insertionSort r items).map f)
      · rw [hkeys, List.map_map]
        rfl
    have hsorted : (items.insertionSort r).Pairwise s := by
      have hpairwise := List.pairwise_insertionSort s' members
      rw [h] at hpairwise
      exact List.pairwise_map.mp hpairwise
    refine ⟨hmembers,
      List.Perm.eq_of_pairwise (fun a b ha hb => ?_) (List.pairwise_insertionSort s items) hsorted ?_⟩
    · exact hs a ((List.mem_insertionSort s).mp ha) b ((List.mem_insertionSort r).mp hb)
    · exact (List.perm_insertionSort s items).trans (List.perm_insertionSort r items).symm
  · rintro ⟨rfl, hsame⟩
    rw [hmap, hsame]

end

mutual

/-- **What is read back is sorted as it was written** exactly when, in the object and all that is in it, the
keys have the order of their strings. -/
theorem sortKeys_json_iff : ∀ x : PyData, x.All (Writable fmt) →
    ((x.json fmt).sortKeys = x.sortedJson fmt ↔ x.All (InOrder fmt))
  | .none, _ | .bool _, _ | .int _, _ | .float _, _ | .str _, _ => iff_of_true rfl nofun
  | .seq _ xs, h => by
    rw [json, Json.sortKeys, sortedJson, Json.arr.injEq,
      sortElements_json_iff xs h.2]
    exact ⟨fun hrest => ⟨nofun, hrest⟩, And.right⟩
  | .dict items, h => by
    have hfst : (sortedItems fmt items).map Prod.fst = items.map Prod.fst := map_fst_sortedItems items
    have htexts := unambiguous_dict_iff.mp h.1.unambiguous
    rw [map_fst_jsonItems] at htexts
    rw [json, Json.sortKeys, sortedJson, Json.obj.injEq, insertionSort_members_iff,
      sortMembers_json_iff items h.2, hfst]
    · exact And.comm
    · rw [Json.map_fst_sortMembers, map_fst_jsonItems, map_text_sortedItems]
    · rw [hfst]
      exact h.1.distinct
    · rwa [map_text_sortedItems]

theorem sortElements_json_iff : ∀ xs : List PyData, AllElements (Writable fmt) xs →
    (Json.sortElements (jsonElements fmt xs) = sortedElements fmt xs ↔ AllElements (InOrder fmt) xs)
  | [], _ => iff_of_true rfl trivial
  | x :: xs, h => by
    rw [jsonElements, Json.sortElements, sortedElements, List.cons.injEq, AllElements,
      sortKeys_json_iff x h.1,
      sortElements_json_iff xs h.2]

theorem sortMembers_json_iff : ∀ items : List (DataKey × PyData), AllItems (Writable fmt) items →
    (Json.sortMembers (jsonItems fmt items) =
        (sortedItems fmt items).map (fun item => (item.1.text fmt, item.2)) ↔
      AllItems (InOrder fmt) items)
  | [], _ => iff_of_true rfl trivial
  | (k, x) :: items, h => by
    rw [jsonItems, Json.sortMembers, sortedItems, List.map_cons, List.cons.injEq, AllItems, Prod.mk.injEq,
      sortKeys_json_iff x h.1,
      sortMembers_json_iff items h.2]
    exact and_congr_left fun _ => ⟨And.right, fun hx => ⟨rfl, hx⟩⟩

end

end PyData

end MeshWeaver.Lib
