import Mathlib.Data.List.Perm.Basic
import Mathlib.Logic.Equiv.Basic
import Mathlib.Order.Nat

/-!
# Binary heaps in a list

The functions of `heapq`. `siftdown` moves an item up as long as it is less than its parent; `siftup` first moves an
item down to a leaf, always in exchange for the lesser child, and then up to where it belongs. A comparison may
depend on when it is made, so comparisons are counted and `lt` has the count as an argument. Whatever it says, items
are only rearranged; if it is one order all the time, `heapify` puts a least item first.
-/

namespace MeshWeaver.Lib.Heap

variable {α : Type}

def parent (pos : Nat) : Nat := (pos - 1) / 2

def swap (heap : List α) (i j : Nat) : List α :=
  match heap[i]?, heap[j]? with
  | some x, some y => (heap.set i y).set j x
  | _, _ => heap

def less (lt : α → α → Bool) (heap : List α) (i j : Nat) : Bool :=
  match heap[i]?, heap[j]? with
  | some x, some y => lt x y
  | _, _ => false

section Definitions

variable (lt : Nat → α → α → Bool)

/-- `_siftdown(heap, startpos, pos)`, with the number of comparisons so far; `pos` steps are enough. -/
def siftdown (startpos : Nat) : Nat → List α × Nat → Nat → List α × Nat
  | 0, state, _ => state
  | fuel + 1, (heap, made), pos =>
    if pos > startpos then
      if less (lt made) heap pos (parent pos) then
        siftdown startpos fuel (swap heap pos (parent pos), made + 1) (parent pos)
      else (heap, made + 1)
    else (heap, made)

def lesserChild (heap : List α) (made pos : Nat) : Nat × Nat :=
  if 2 * pos + 2 < heap.length then
    if less (lt made) heap (2 * pos + 1) (2 * pos + 2) then (2 * pos + 1, made + 1) else (2 * pos + 2, made + 1)
  else (2 * pos + 1, made)

/-- The first loop of `_siftup`: the item goes down to a leaf. -/
def descend : Nat → List α × Nat → Nat → (List α × Nat) × Nat
  | 0, state, pos => (state, pos)
  | fuel + 1, (heap, made), pos =>
    if 2 * pos + 1 < heap.length then
      descend fuel (swap heap pos (lesserChild lt heap made pos).1, (lesserChild lt heap made pos).2)
        (lesserChild lt heap made pos).1
    else ((heap, made), pos)

def siftup (state : List α × Nat) (pos : Nat) : List α × Nat :=
  let (state, leaf) := descend lt state.1.length state pos
  siftdown lt pos leaf state leaf

def heapify (state : List α × Nat) : List α × Nat :=
  (List.range (state.1.length / 2)).reverse.foldl (siftup lt) state

def heappush (state : List α × Nat) (item : α) : List α × Nat :=
  siftdown lt 0 state.1.length (state.1 ++ [item], state.2) state.1.length

/-- `heappop(heap)`, of a heap with items. -/
def heappop (state : List α × Nat) : Option (α × List α × Nat) :=
  match state.1.getLast? with
  | none => none
  | some last =>
    match state.1.dropLast with
    | [] => some (last, [], state.2)
    | first :: others => some (first, siftup lt (last :: others, state.2) 0)

end Definitions

/-! ### Items are only rearranged -/

theorem swap_eq {heap : List α} {i j : Nat} (hi : i < heap.length) (hj : j < heap.length) :
    swap heap i j = (heap.set i heap[j]).set j heap[i] := by
  rw [swap, List.getElem?_eq_getElem hi, List.getElem?_eq_getElem hj]

theorem swap_perm (heap : List α) (i j : Nat) : (swap heap i j).Perm heap := by
  by_cases h : i < heap.length ∧ j < heap.length
  · rw [swap_eq h.1 h.2]
    exact List.set_set_perm h.1 h.2
  · have hnone : heap[i]? = none ∨ heap[j]? = none := by
      simp only [List.getElem?_eq_none_iff]
      omega
    rw [swap]
    rcases hnone with hnone | hnone
    · rw [hnone]
    · rw [hnone]
      cases heap[i]? <;> exact List.Perm.refl heap

@[simp] theorem length_swap (heap : List α) (i j : Nat) : (swap heap i j).length = heap.length :=
  (swap_perm heap i j).length_eq

section Perm

variable (lt : Nat → α → α → Bool)

theorem siftdown_perm (startpos fuel : Nat) (state : List α × Nat) (pos : Nat) :
    (siftdown lt startpos fuel state pos).1.Perm state.1 := by
  induction fuel generalizing state pos with
  | zero => exact List.Perm.refl _
  | succ fuel ih =>
    obtain ⟨heap, made⟩ := state
    rw [siftdown]
    split_ifs
    · exact (ih _ _).trans (swap_perm heap pos (parent pos))
    · exact List.Perm.refl heap
    · exact List.Perm.refl heap

theorem descend_perm (fuel : Nat) (state : List α × Nat) (pos : Nat) :
    (descend lt fuel state pos).1.1.Perm state.1 := by
  induction fuel generalizing state pos with
  | zero => exact List.Perm.refl _
  | succ fuel ih =>
    obtain ⟨heap, made⟩ := state
    rw [descend]
    split_ifs
    · exact (ih _ _).trans (swap_perm heap pos _)
    · exact List.Perm.refl heap

variable (state : List α × Nat)

theorem siftup_perm (pos : Nat) : (siftup lt state pos).1.Perm state.1 :=
  (siftdown_perm lt pos _ _ _).trans (descend_perm lt _ state pos)

theorem heapify_perm : (heapify lt state).1.Perm state.1 := by
  rw [heapify]
  induction (List.range (state.1.length / 2)).reverse generalizing state with
  | nil => exact List.Perm.refl _
  | cons pos rest ih => exact (ih (siftup lt state pos)).trans (siftup_perm lt state pos)

theorem heappush_perm (item : α) : (heappush lt state item).1.Perm (item :: state.1) :=
  (siftdown_perm lt 0 _ _ _).trans (List.perm_append_singleton item state.1)

theorem heappop_cons (first : α) (others : List α) (made : Nat) :
    ∃ rest, heappop lt (first :: others, made) = some (first, rest) ∧ rest.1.Perm others := by
  rcases List.eq_nil_or_concat' others with rfl | ⟨init, last, rfl⟩
  · exact ⟨([], made), rfl, List.Perm.refl _⟩
  · refine ⟨siftup lt (last :: init, made) 0, ?_, ?_⟩
    · have hlast : (first :: (init ++ [last])).getLast? = some last := by
        rw [← List.cons_append, List.getLast?_concat]
      have hinit : (first :: (init ++ [last])).dropLast = first :: init := by
        rw [← List.cons_append, List.dropLast_concat]
      rw [heappop, hlast, hinit]
    · exact (siftup_perm lt _ 0).trans (List.perm_append_singleton last init).symm

end Perm

/-! ### A least item comes first -/

/-- Among the items that `P` holds of, `lt` is the strict part of a total preorder. -/
structure OrderOn (lt : α → α → Bool) (P : α → Prop) : Prop where
  asymm : ∀ x y, P x → P y → lt x y → lt y x = false
  trans : ∀ x y z, P x → P y → P z → lt y x = false → lt z y = false → lt z x = false

theorem OrderOn.irrefl {lt : α → α → Bool} {P : α → Prop} (h : OrderOn lt P) {x : α} (hx : P x) : lt x x = false := by
  cases hxx : lt x x with
  | false => rfl
  | true => exact hxx.symm.trans (h.asymm x x hx hx hxx)

def InOrder (lt : α → α → Bool) (heap : List α) (i j : Nat) : Prop :=
  ∃ x ∈ heap[i]?, ∃ y ∈ heap[j]?, lt y x = false

section Positions

variable {lt : α → α → Bool} {P : α → Prop} {heap : List α} {i j k : Nat}

theorem InOrder.trans (h : OrderOn lt P) (hP : ∀ x ∈ heap, P x) (hij : InOrder lt heap i j)
    (hjk : InOrder lt heap j k) : InOrder lt heap i k := by
  obtain ⟨x, hx, y, hy, hxy⟩ := hij
  obtain ⟨y', hy', z, hz, hyz⟩ := hjk
  cases hy.symm.trans hy'
  have hPs := fun {x : α} {i : Nat} (hx : x ∈ heap[i]?) => hP x (List.mem_of_getElem? hx)
  exact ⟨x, hx, z, hz, h.trans x y z (hPs hx) (hPs hy) (hPs hz) hxy hyz⟩

theorem inOrder_of_less (h : OrderOn lt P) (hP : ∀ x ∈ heap, P x) (hless : less lt heap i j = true) :
    InOrder lt heap i j := by
  rw [less] at hless
  split at hless
  · rename_i x y hx hy
    exact ⟨x, hx, y, hy, h.asymm x y (hP x (List.mem_of_getElem? hx)) (hP y (List.mem_of_getElem? hy)) hless⟩
  · cases hless

theorem inOrder_of_not_less (hi : i < heap.length) (hj : j < heap.length) (hless : less lt heap i j = false) :
    InOrder lt heap j i := by
  rw [less, List.getElem?_eq_getElem hi, List.getElem?_eq_getElem hj] at hless
  exact ⟨heap[j], List.getElem?_eq_getElem hj, heap[i], List.getElem?_eq_getElem hi, hless⟩

theorem getElem?_swap (hi : i < heap.length) (hj : j < heap.length) (k : Nat) :
    (swap heap i j)[k]? = heap[Equiv.swap i j k]? := by
  rw [swap_eq hi hj, Equiv.swap_apply_def]
  split_ifs with hki hkj
  · subst hki
    by_cases hkj : j = k
    · subst hkj
      rw [List.getElem?_set_self (by rwa [List.length_set]), List.getElem?_eq_getElem hj]
    · rw [List.getElem?_set_ne hkj, List.getElem?_set_self hi, List.getElem?_eq_getElem hj]
  · subst hkj
    rw [List.getElem?_set_self (by rwa [List.length_set]), List.getElem?_eq_getElem hi]
  · rw [List.getElem?_set_ne (Ne.symm hkj), List.getElem?_set_ne (Ne.symm hki)]

theorem inOrder_swap (lt : α → α → Bool) (hi : i < heap.length) (hj : j < heap.length) (a b : Nat) :
    InOrder lt (swap heap i j) a b ↔ InOrder lt heap (Equiv.swap i j a) (Equiv.swap i j b) := by
  rw [InOrder, InOrder, getElem?_swap hi hj, getElem?_swap hi hj]

end Positions

/-- Each child from position `start` on is in order with its parent. -/
def OrderedFrom (lt : α → α → Bool) (start : Nat) (heap : List α) : Prop :=
  ∀ c < heap.length, 0 < c → start ≤ parent c → InOrder lt heap (parent c) c

/-- A position in the tree whose root is `start`. -/
inductive Under (start : Nat) : Nat → Prop where
  | root : Under start start
  | child {c : Nat} : 0 < c → Under start (parent c) → Under start c

theorem Under.le {start pos : Nat} (h : Under start pos) : start ≤ pos := by
  induction h with
  | root => exact Nat.le_refl start
  | child hc _ ih => rw [parent] at ih; omega

theorem Under.parent {start pos : Nat} (h : Under start pos) (hpos : pos ≠ start) :
    0 < pos ∧ Under start (parent pos) := by
  cases h with
  | root => exact absurd rfl hpos
  | child hc hparent => exact ⟨hc, hparent⟩

/-- The item at `hole` may be less than its parent, but nothing else is out of order. -/
structure HoleUp (lt : α → α → Bool) (start hole : Nat) (heap : List α) : Prop where
  ordered : ∀ c < heap.length, 0 < c → start ≤ parent c → c ≠ hole → InOrder lt heap (parent c) c
  skips : hole ≠ start → ∀ c < heap.length, 0 < c → parent c = hole → InOrder lt heap (parent hole) c

/-- The item at `hole` may be out of order with its parent and its children. -/
structure HoleDown (lt : α → α → Bool) (start hole : Nat) (heap : List α) : Prop where
  ordered : ∀ c < heap.length, 0 < c → start ≤ parent c → c ≠ hole → parent c ≠ hole →
    InOrder lt heap (parent c) c
  skips : hole ≠ start → ∀ c < heap.length, 0 < c → parent c = hole → InOrder lt heap (parent hole) c

theorem parent_lt {pos : Nat} (h : 0 < pos) : parent pos < pos := by
  rw [parent]
  omega

section Sifting

variable {lt : α → α → Bool} {P : α → Prop} {heap : List α} {start hole : Nat}

theorem HoleUp.step (h : OrderOn lt P) (hP : ∀ x ∈ heap, P x) (hheap : HoleUp lt start hole heap)
    (hunder : Under start hole) (hne : hole ≠ start) (hlt : hole < heap.length)
    (hless : less lt heap hole (parent hole) = true) :
    HoleUp lt start (parent hole) (swap heap hole (parent hole)) := by
  obtain ⟨hpos, hunder⟩ := hunder.parent hne
  have hp := parent_lt hpos
  have hlesser := inOrder_of_less h hP hless
  generalize hparent : parent hole = p at hlesser hunder hp ⊢
  have hswap := fun a b => inOrder_swap lt hlt (hp.trans hlt) a b
  constructor
  · intro c hc hcpos hstart hcp
    rw [length_swap] at hc
    rw [hswap]
    by_cases hchole : c = hole
    · subst hchole
      rwa [hparent, Equiv.swap_apply_left, Equiv.swap_apply_right]
    rw [Equiv.swap_apply_of_ne_of_ne hchole hcp]
    have hordered := hheap.ordered c hc hcpos hstart hchole
    by_cases hbelow : parent c = hole
    · -- the old parent is now above the hole's children
      rw [hbelow, Equiv.swap_apply_left, ← hparent]
      exact hheap.skips hne c hc hcpos hbelow
    by_cases hbeside : parent c = p
    · rw [hbeside] at hordered ⊢
      rw [Equiv.swap_apply_right]
      exact hlesser.trans h hP hordered
    · rwa [Equiv.swap_apply_of_ne_of_ne hbelow hbeside]
  · intro hpne c hc hcpos hcparent
    rw [length_swap] at hc
    obtain ⟨hppos, hpunder⟩ := hunder.parent hpne
    have hpp := parent_lt hppos
    have hup := hheap.ordered p (hp.trans hlt) hppos hpunder.le hp.ne
    rw [hswap, Equiv.swap_apply_of_ne_of_ne (by omega) (by omega)]
    by_cases hchole : c = hole
    · rwa [hchole, Equiv.swap_apply_left]
    · have hcp := parent_lt hcpos
      have hordered := hheap.ordered c hc hcpos (hcparent ▸ hunder.le) hchole
      rw [Equiv.swap_apply_of_ne_of_ne hchole (by omega)]
      rw [hcparent] at hordered
      exact hup.trans h hP hordered

theorem orderedFrom_siftdown (h : OrderOn lt P) {fuel made : Nat} (hP : ∀ x ∈ heap, P x)
    (hheap : HoleUp lt start hole heap) (hunder : Under start hole) (hlt : hole < heap.length) (hfuel : hole ≤ fuel) :
    OrderedFrom lt start (siftdown (fun _ => lt) start fuel (heap, made) hole).1 := by
  induction fuel generalizing heap hole made with
  | zero =>
    intro c hc hcpos hstart
    exact hheap.ordered c hc hcpos hstart (by omega)
  | succ fuel ih =>
    rw [siftdown]
    split_ifs with hgt hless
    · have hpos := parent_lt (by omega : 0 < hole)
      refine ih (fun x hx => hP x ((swap_perm ..).mem_iff.mp hx)) (hheap.step h hP hunder hgt.ne' hlt hless)
        (hunder.parent hgt.ne').2 ?_ (by omega)
      rw [length_swap]
      exact hpos.trans hlt
    · intro c hc hcpos hstart
      by_cases hchole : c = hole
      · subst hchole
        exact inOrder_of_not_less hlt ((parent_lt hcpos).trans hlt) (Bool.eq_false_iff.mpr hless)
      · exact hheap.ordered c hc hcpos hstart hchole
    · intro c hc hcpos hstart
      have hcp := parent_lt hcpos
      exact hheap.ordered c hc hcpos hstart (by omega)

theorem lesserChild_spec (h : OrderOn lt P) (hP : ∀ x ∈ heap, P x) (made : Nat)
    (hchild : 2 * hole + 1 < heap.length) :
    let child := (lesserChild (fun _ => lt) heap made hole).1
    (child = 2 * hole + 1 ∨ child = 2 * hole + 2) ∧ child < heap.length ∧
      ∀ c < heap.length, 0 < c → parent c = hole → c ≠ child → InOrder lt heap child c := by
  rw [lesserChild]
  split_ifs with htwo hless
  · refine ⟨Or.inl rfl, hchild, fun c hc hcpos hparent hne => ?_⟩
    obtain rfl : c = 2 * hole + 2 := by rw [parent] at hparent; omega
    exact inOrder_of_less h hP hless
  · refine ⟨Or.inr rfl, htwo, fun c hc hcpos hparent hne => ?_⟩
    obtain rfl : c = 2 * hole + 1 := by rw [parent] at hparent; omega
    exact inOrder_of_not_less hc htwo (Bool.eq_false_iff.mpr hless)
  · refine ⟨Or.inl rfl, hchild, fun c hc hcpos hparent hne => ?_⟩
    rw [parent] at hparent
    omega

theorem HoleDown.step (hheap : HoleDown lt start hole heap) (hunder : Under start hole) {child : Nat}
    (hchild : parent child = hole) (hpos : 0 < child) (hlt : child < heap.length)
    (hlesser : ∀ c < heap.length, 0 < c → parent c = hole → c ≠ child → InOrder lt heap child c) :
    HoleDown lt start child (swap heap hole child) := by
  have hdown : hole < child := hchild ▸ parent_lt hpos
  have hswap := fun a b => inOrder_swap lt (hdown.trans hlt) hlt a b
  constructor
  · intro c hc hcpos hstart hne hparent
    rw [length_swap] at hc
    have hcp := parent_lt hcpos
    rw [hswap]
    by_cases hchole : c = hole
    · -- the lesser child is now below the hole's parent
      subst hchole
      rw [Equiv.swap_apply_left, Equiv.swap_apply_of_ne_of_ne hcp.ne hparent]
      exact hheap.skips (by omega) child hlt hpos hchild
    rw [Equiv.swap_apply_of_ne_of_ne hchole hne]
    by_cases hbeside : parent c = hole
    · rw [hbeside, Equiv.swap_apply_left]
      exact hlesser c hc hcpos hbeside hne
    · rw [Equiv.swap_apply_of_ne_of_ne hbeside hparent]
      exact hheap.ordered c hc hcpos hstart hchole hbeside
  · intro _ c hc hcpos hparent
    rw [length_swap] at hc
    have hcp := parent_lt hcpos
    rw [hchild, hswap, Equiv.swap_apply_left, Equiv.swap_apply_of_ne_of_ne (by omega) (by omega)]
    have hstart := hunder.le
    have hordered := hheap.ordered c hc hcpos (by omega) (by omega) (by omega)
    rwa [hparent] at hordered

section

variable (h : OrderOn lt P)
include h

/-- **The way down** ends at a leaf, with nothing but the item there out of order. -/
theorem descend_spec (fuel made : Nat) (hP : ∀ x ∈ heap, P x)
    (hheap : HoleDown lt start hole heap) (hunder : Under start hole) (hlt : hole < heap.length)
    (hfuel : heap.length ≤ hole + fuel) :
    let found := descend (fun _ => lt) fuel (heap, made) hole
    HoleUp lt start found.2 found.1.1 ∧ Under start found.2 ∧ found.2 < found.1.1.length := by
  induction fuel generalizing heap hole made with
  | zero => omega
  | succ fuel ih =>
    rw [descend]
    split_ifs with hchild
    · obtain ⟨hcases, hclt, hlesser⟩ := lesserChild_spec h hP made hchild
      generalize lesserChild (fun _ => lt) heap made hole = chosen at hcases hclt hlesser
      have hparent : parent chosen.1 = hole := by rw [parent]; omega
      have hpos : 0 < chosen.1 := by omega
      refine ih _ (fun x hx => hP x ((swap_perm ..).mem_iff.mp hx))
        (hheap.step hunder hparent hpos hclt hlesser) (.child hpos (hparent ▸ hunder)) ?_ ?_
      · rwa [length_swap]
      · rw [length_swap]
        omega
    · refine ⟨⟨fun c hc hcpos hstart hne => hheap.ordered c hc hcpos hstart hne ?_, hheap.skips⟩, hunder, hlt⟩
      change c < heap.length at hc
      rw [parent]
      omega

theorem orderedFrom_siftup {made pos : Nat} (hP : ∀ x ∈ heap, P x)
    (hheap : OrderedFrom lt (pos + 1) heap) (hlt : pos < heap.length) :
    OrderedFrom lt pos (siftup (fun _ => lt) (heap, made) pos).1 := by
  have hdown : HoleDown lt pos pos heap :=
    ⟨fun c hc hcpos hstart _ hne => hheap c hc hcpos (by omega), fun hne => absurd rfl hne⟩
  obtain ⟨hup, hunder, hleaf⟩ := descend_spec h heap.length made hP hdown .root hlt (by omega)
  have hperm := descend_perm (fun _ => lt) heap.length (heap, made) pos
  exact orderedFrom_siftdown h (fun x hx => hP x (hperm.mem_iff.mp hx)) hup hunder hleaf (Nat.le_refl _)

/-- **`heapify` makes a heap.** -/
theorem orderedFrom_heapify (hP : ∀ x ∈ heap, P x) (made : Nat) :
    OrderedFrom lt 0 (heapify (fun _ => lt) (heap, made)).1 := by
  have hloop : ∀ n, ∀ state : List α × Nat, (∀ x ∈ state.1, P x) → n ≤ state.1.length →
      OrderedFrom lt n state.1 →
      OrderedFrom lt 0 ((List.range n).reverse.foldl (siftup fun _ => lt) state).1 := by
    intro n
    induction n with
    | zero => exact fun _ _ _ hstate => hstate
    | succ n ih =>
      intro state hstate hn hordered
      have hperm := siftup_perm (fun _ => lt) state n
      rw [List.range_succ, List.reverse_append, List.reverse_singleton, List.singleton_append, List.foldl_cons]
      refine ih _ (fun x hx => hstate x (hperm.mem_iff.mp hx)) ?_ (orderedFrom_siftup h hstate hordered hn)
      rw [hperm.length_eq]
      omega
  refine hloop _ (heap, made) hP (Nat.div_le_self _ _) fun c hc hcpos hstart => ?_
  rw [parent] at hstart
  omega

theorem OrderedFrom.root (hP : ∀ x ∈ heap, P x) (hheap : OrderedFrom lt 0 heap) {first : α}
    (hfirst : heap[0]? = some first) : ∀ x ∈ heap, lt x first = false := by
  have hroot : ∀ i < heap.length, InOrder lt heap 0 i := by
    intro i
    induction i using Nat.strongRecOn with
    | ind i ih =>
      intro hi
      by_cases hzero : i = 0
      · subst hzero
        exact ⟨first, hfirst, first, hfirst, h.irrefl (hP first (List.mem_of_getElem? hfirst))⟩
      · have hlt := parent_lt (Nat.pos_of_ne_zero hzero)
        exact (ih (parent i) hlt (hlt.trans hi)).trans h hP (hheap i hi (by omega) (Nat.zero_le _))
  intro x hx
  obtain ⟨i, hi⟩ := List.mem_iff_getElem?.mp hx
  obtain ⟨y, hy, z, hz, hyz⟩ := hroot i (List.getElem?_eq_some_iff.mp hi).1
  cases hfirst.symm.trans hy
  cases hi.symm.trans hz
  exact hyz

end

end Sifting

end MeshWeaver.Lib.Heap
