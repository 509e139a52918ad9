import MeshWeaver.Lib.Chunks

/-!
# Reduction in a tree

`DistributedMapReduce.tree_reduce` folds a list in groups, level by level. A group of one item, which only the last
group of a level can be, is carried over and comes before the results of all other groups. So the items are folded in
their order if no level leaves one item over. `dispatch_task` returns what the callable does, and `gather` the results
in the order of the tasks.
-/

namespace MeshWeaver.DistributedMapReduce

open Lib

section
variable {α : Type} (reduceFn : α → α → α) (branchingFactor : Nat)

/-- The body of the loop: `foldFirst` is `_reduce_group_wrapper`. -/
def nextLevel (currentLevel : List α) : List α :=
  let groups := chunks branchingFactor currentLevel
  let singles := groups.filter fun group => group.length = 1
  let chunkPairs := groups.filter fun group => group.length ≠ 1
  -- a single item is appended at once, the results of the groups at the end
  singles.flatten ++ chunkPairs.filterMap (foldFirst reduceFn)

/-- `while len(current_level) > 1` -/
def reduceLevels : Nat → List α → Option (List α)
  | 0, _ => none
  | fuel + 1, currentLevel =>
    if currentLevel.length > 1 then reduceLevels fuel (nextLevel reduceFn branchingFactor currentLevel)
    else some currentLevel

/-- `tree_reduce(reduce_fn, items, initial_value, branching_factor)`; `none` where the levels are too many
for the fuel, `some none` where `None` is returned. -/
def treeReduce (fuel : Nat) (items : List α) (initialValue : Option α) : Option (Option α) :=
  if items = [] then some initialValue
  else if items.length = 1 ∧ initialValue.isNone then some items.head?
  else
    (reduceLevels reduceFn branchingFactor fuel items).map fun currentLevel =>
      match initialValue with
      | some value => currentLevel.head?.map (reduceFn value)
      | none => currentLevel.head?

def leftFold (items : List α) : Option α → Option α
  | some value => some (items.foldl reduceFn value)
  | none => foldFirst reduceFn items

end

/-- **No level leaves one item over**, from a level of so many items to the last one. -/
inductive NoneLeftOver (branchingFactor : Nat) : Nat → Prop
  | root : NoneLeftOver branchingFactor 1
  | level {n : Nat} (many : 1 < n) (rest : n % branchingFactor ≠ 1)
      (next : NoneLeftOver branchingFactor ((n + branchingFactor - 1) / branchingFactor)) :
      NoneLeftOver branchingFactor n

/-! ### Groups -/

section groups
variable {α : Type} {b : Nat} (hb : 2 ≤ b)
include hb

theorem chunks_of_two_le {xs : List α} (h : 1 < xs.length) :
    ∃ first, chunks b xs = first :: chunks b (xs.drop b) ∧ first.head? = xs.head? ∧ first.length ≠ 1 := by
  have hne : xs ≠ [] := List.ne_nil_of_length_pos (by omega)
  refine ⟨xs.take b, chunks_of_ne_nil (by omega) hne, ?_, ?_⟩
  · rw [List.head?_take, if_neg (by omega)]
  · rw [List.length_take]
    omega

theorem filter_single_chunks (xs : List α) :
    (chunks b xs).filter (fun group => group.length = 1) =
      if xs.length % b = 1 then [xs.drop (xs.length - 1)] else [] := by
  induction xs using drop_induction (show 0 < b by omega) with
  | nil => simp [chunks_nil (show 0 < b by omega)]
  | step xs hne ih =>
    rw [chunks_of_ne_nil (by omega) hne]
    rcases Nat.lt_or_ge xs.length b with hlt | hge
    · have hle := Nat.le_of_lt hlt
      rw [List.take_of_length_le hle, List.drop_eq_nil_of_le hle, chunks_nil (by omega),
        Nat.mod_eq_of_lt hlt]
      by_cases hone : xs.length = 1
      · simp [hone]
      · simp [hone]
    · have hfirst : (xs.take b).length ≠ 1 := by
        rw [List.length_take]
        omega
      rw [List.filter_cons_of_neg (by simpa using hfirst), ih, List.length_drop, List.drop_drop,
        ← Nat.mod_eq_sub_mod hge]
      split_ifs with hrest
      · have hmore : xs.length ≠ b := by
          rintro rfl
          rw [Nat.mod_self] at hrest
          cases hrest
        congr 2
        omega
      · rfl

theorem ne_nil_of_mem_chunks {xs group : List α} (h : group ∈ chunks b xs) : group ≠ [] := by
  induction xs using drop_induction (show 0 < b by omega) with
  | nil =>
    rw [chunks_nil (by omega)] at h
    cases h
  | step xs hne ih =>
    rw [chunks_of_ne_nil (by omega) hne, List.mem_cons] at h
    rcases h with rfl | h
    · rw [Ne, List.take_eq_nil_iff, not_or]
      exact ⟨by omega, hne⟩
    · exact ih h

end groups

/-! ### One level -/

section level
variable {α : Type} (f : α → α → α) {b : Nat} (hb : 2 ≤ b)
include hb

theorem length_nextLevel (xs : List α) : (nextLevel f b xs).length = (xs.length + b - 1) / b := by
  have hsingles : ((chunks b xs).filter fun group => group.length = 1).flatten.length =
      ((chunks b xs).filter fun group => group.length = 1).length := by
    rw [filter_single_chunks hb]
    split_ifs with hrest
    · have hpos : xs.length ≠ 0 := by
        intro hzero
        rw [hzero, Nat.zero_mod] at hrest
        cases hrest
      simp
      omega
    · rfl
  have hpairs : (((chunks b xs).filter fun group => group.length ≠ 1).filterMap (foldFirst f)).length =
      ((chunks b xs).filter fun group => group.length ≠ 1).length := by
    rw [List.length_filterMap_eq_countP, List.countP_eq_length]
    intro group hgroup
    cases group with
    | nil => exact absurd rfl (ne_nil_of_mem_chunks hb (List.mem_of_mem_filter hgroup))
    | cons x xs => rfl
  have hsplit := List.length_eq_length_filter_add (l := chunks b xs) fun group => decide (group.length = 1)
  rw [nextLevel, List.length_append, hsingles, hpairs, ← length_chunks, hsplit]
  simp only [ne_eq, decide_not]

theorem ceilDiv_lt {n : Nat} (hn : 1 < n) : (n + b - 1) / b < n := by
  have hle : n + b ≤ n * b := Nat.add_le_mul hn hb
  rw [Nat.div_lt_iff_lt_mul (by omega)]
  omega

theorem nextLevel_of_rest_ne_one {xs : List α} (hrest : xs.length % b ≠ 1) :
    nextLevel f b xs = (chunks b xs).filterMap (foldFirst f) := by
  have hsingles := filter_single_chunks hb xs
  rw [if_neg hrest] at hsingles
  have hpairs : ((chunks b xs).filter fun group => group.length ≠ 1) = chunks b xs := by
    rw [List.filter_eq_self]
    intro group hgroup
    simpa using List.filter_eq_nil_iff.mp hsingles group hgroup
  rw [nextLevel, hsingles, hpairs, List.flatten_nil, List.nil_append]

theorem foldFirst_nextLevel [Std.Associative f] {xs : List α} (hrest : xs.length % b ≠ 1) :
    foldFirst f (nextLevel f b xs) = foldFirst f xs := by
  rw [nextLevel_of_rest_ne_one f hb hrest, foldFirst_filterMap, flatten_chunks (by omega)]

end level

/-! ### All levels -/

section
variable {α : Type} (f : α → α → α) {b : Nat} (hb : 2 ≤ b)
include hb

theorem reduceLevels_isSome {fuel : Nat} {xs : List α} (hne : xs ≠ []) (hfuel : xs.length ≤ fuel) :
    ∃ x, reduceLevels f b fuel xs = some [x] := by
  induction fuel generalizing xs with
  | zero => exact absurd (List.length_eq_zero_iff.mp (Nat.le_zero.mp hfuel)) hne
  | succ fuel ih =>
    rw [reduceLevels]
    split_ifs with hmany
    · have hlength := length_nextLevel f hb xs
      have hlt := ceilDiv_lt hb hmany
      have hpos : 0 < (xs.length + b - 1) / b := Nat.div_pos (by omega) (by omega)
      exact ih (List.ne_nil_of_length_pos (by omega)) (by omega)
    · have hone : xs.length = 1 := by
        have := List.length_pos_of_ne_nil hne
        omega
      obtain ⟨x, rfl⟩ := List.length_eq_one_iff.mp hone
      exact ⟨x, rfl⟩

/-- **The result is the fold in order** if no level leaves one over. -/
theorem foldFirst_reduceLevels [Std.Associative f] {n : Nat} (hlevels : NoneLeftOver b n) {fuel : Nat}
    {xs level : List α} (hlength : xs.length = n) (h : reduceLevels f b fuel xs = some level) :
    foldFirst f level = foldFirst f xs := by
  induction hlevels generalizing fuel xs with
  | root =>
    cases fuel with
    | zero => cases h
    | succ fuel =>
      rw [reduceLevels, if_neg (by omega)] at h
      cases h
      rfl
  | level many rest next ih =>
    cases fuel with
    | zero => cases h
    | succ fuel =>
      rw [reduceLevels, if_pos (by omega)] at h
      rw [← hlength] at rest
      have hnext := length_nextLevel f hb xs
      rw [hlength] at hnext
      rw [ih hnext h, foldFirst_nextLevel f hb rest]

end

/-! ### The order of the items

`fun a _ => a` is associative and folds a list to its first item, so it shows which item comes first. -/

section order

theorem foldFirst_keep {α : Type} (xs : List α) : foldFirst (fun a _ => a) xs = xs.head? := by
  cases xs with
  | nil => rfl
  | cons x xs =>
    induction xs with
    | nil => rfl
    | cons y ys ih => exact ih

variable {b : Nat} (hb : 2 ≤ b)
include hb

theorem nextLevel_keep {α : Type} (x : α) (xs : List α) (hne : xs ≠ []) :
    ∃ singles others, nextLevel (fun a _ => a) b (x :: xs) = singles ++ x :: others ∧
      (∀ y ∈ singles ++ others, y ∈ xs.tail) ∧
      singles = if (x :: xs).length % b = 1 then (x :: xs).drop xs.length else [] := by
  have hmany : 1 < (x :: xs).length := by
    have := List.length_pos_of_ne_nil hne
    rw [List.length_cons]
    omega
  obtain ⟨first, hchunks, hhead, hlength⟩ := chunks_of_two_le hb hmany
  have hbehind : ∀ y ∈ (chunks b ((x :: xs).drop b)).flatten, y ∈ xs.tail := by
    intro y hy
    rw [flatten_chunks (by omega)] at hy
    rw [← List.drop_one]
    exact (List.drop_sublist_drop_left xs (show 1 ≤ b - 1 by omega)).subset
      (by rwa [show b = b - 1 + 1 by omega, List.drop_succ_cons] at hy)
  have hsingles := filter_single_chunks hb (x :: xs)
  rw [hchunks, List.filter_cons_of_neg (by simpa using hlength)] at hsingles
  refine ⟨((chunks b ((x :: xs).drop b)).filter fun group => group.length = 1).flatten,
    ((chunks b ((x :: xs).drop b)).filter fun group => group.length ≠ 1).filterMap
      (foldFirst fun a _ => a), ?_, ?_, ?_⟩
  · rw [nextLevel, hchunks, List.filter_cons_of_neg (by simpa using hlength),
      List.filter_cons_of_pos (by simpa using hlength), List.filterMap_cons_some]
    rw [foldFirst_keep, hhead, List.head?_cons]
  · intro y hy
    rcases List.mem_append.mp hy with hy | hy
    · obtain ⟨group, hgroup, hy⟩ := List.mem_flatten.mp hy
      exact hbehind y (List.mem_flatten.mpr ⟨group, List.mem_of_mem_filter hgroup, hy⟩)
    · obtain ⟨group, hgroup, hy⟩ := List.mem_filterMap.mp hy
      rw [foldFirst_keep] at hy
      exact hbehind y (List.mem_flatten.mpr ⟨group, List.mem_of_mem_filter hgroup, List.mem_of_head? hy⟩)
  · rw [hsingles]
    split_ifs
    · simp
    · rfl

/-- Only the first item is `true`. -/
def Led (xs : List Bool) : Prop := ∃ rest, xs = true :: rest ∧ ∀ x ∈ rest, x = false

/-- The first item is `false`, and so are all after the second. -/
def Misled (xs : List Bool) : Prop := ∃ rest, xs = false :: rest ∧ ∀ x ∈ rest.tail, x = false

variable {xs : List Bool} (hmany : 1 < xs.length)
include hmany

theorem Led.next (h : Led xs) (hrest : xs.length % b ≠ 1) : Led (nextLevel (fun a _ => a) b xs) := by
  obtain ⟨rest, rfl, hfalse⟩ := h
  obtain ⟨singles, others, hnext, hmem, hsingles⟩ := nextLevel_keep hb true rest
    (by rintro rfl; simp at hmany)
  rw [if_neg hrest] at hsingles
  subst hsingles
  exact ⟨others, hnext, fun x hx => hfalse x (List.mem_of_mem_tail (hmem x hx))⟩

theorem Led.misled (h : Led xs) (hrest : xs.length % b = 1) : Misled (nextLevel (fun a _ => a) b xs) := by
  obtain ⟨rest, rfl, hfalse⟩ := h
  obtain ⟨singles, others, hnext, hmem, hsingles⟩ := nextLevel_keep hb true rest
    (by rintro rfl; simp at hmany)
  rw [if_pos hrest] at hsingles
  have hone : singles.length = 1 := by simp [hsingles]
  obtain ⟨x, rfl⟩ := List.length_eq_one_iff.mp hone
  have hx : x = false := hfalse x (List.mem_of_mem_tail (hmem x (by simp)))
  subst hx
  exact ⟨true :: others, hnext, fun y hy => hfalse y (List.mem_of_mem_tail (hmem y (by simp_all)))⟩

theorem Misled.next (h : Misled xs) : Misled (nextLevel (fun a _ => a) b xs) := by
  obtain ⟨rest, rfl, hfalse⟩ := h
  obtain ⟨singles, others, hnext, hmem, -⟩ := nextLevel_keep hb false rest
    (by rintro rfl; simp at hmany)
  have hall : ∀ x ∈ singles ++ false :: others, x = false := by
    intro x hx
    by_cases hself : x = false
    · exact hself
    · simp_all
  rw [hnext]
  cases singles with
  | nil => exact ⟨others, rfl, fun x hx => hall x (List.mem_cons_of_mem _ (List.mem_of_mem_tail hx))⟩
  | cons y ys =>
    rw [hall y (by simp)]
    exact ⟨ys ++ false :: others, rfl, fun x hx => hall x (List.mem_cons_of_mem _ (List.mem_of_mem_tail hx))⟩

omit hmany

theorem Misled.reduceLevels {fuel : Nat} {level : List Bool} (h : Misled xs)
    (hlevels : DistributedMapReduce.reduceLevels (fun a _ => a) b fuel xs = some level) : Misled level := by
  induction fuel generalizing xs with
  | zero => cases hlevels
  | succ fuel ih =>
    rw [DistributedMapReduce.reduceLevels] at hlevels
    split_ifs at hlevels with hmany
    · exact ih (h.next hb hmany) hlevels
    · cases hlevels
      exact h

/-- **The first item does not stay the first** if some level leaves one over. -/
theorem Led.misled_reduceLevels {fuel : Nat} {level : List Bool} (h : Led xs) (hover : ¬ NoneLeftOver b xs.length)
    (hlevels : DistributedMapReduce.reduceLevels (fun a _ => a) b fuel xs = some level) : Misled level := by
  induction fuel generalizing xs with
  | zero => cases hlevels
  | succ fuel ih =>
    rw [DistributedMapReduce.reduceLevels] at hlevels
    split_ifs at hlevels with hmany
    · by_cases hrest : xs.length % b = 1
      · exact (h.misled hb hmany hrest).reduceLevels hb hlevels
      · refine ih (h.next hb hmany hrest) (fun hnext => hover (.level hmany hrest ?_)) hlevels
        rwa [length_nextLevel _ hb] at hnext
    · obtain ⟨rest, rfl, -⟩ := h
      have hone : (true :: rest).length = 1 := by
        rw [List.length_cons] at hmany ⊢
        omega
      rw [hone] at hover
      exact absurd .root hover

end order

/-! ### The result -/

/-- **Where no level leaves one over**, the result is the fold from the left. -/
theorem treeReduce_eq_leftFold {α : Type} (f : α → α → α) [Std.Associative f] {b : Nat} (hb : 2 ≤ b)
    {items : List α} (hlevels : NoneLeftOver b items.length) (hne : items ≠ []) (initialValue : Option α)
    {fuel : Nat} (hfuel : items.length ≤ fuel) :
    treeReduce f b fuel items initialValue = some (leftFold f items initialValue) := by
  obtain ⟨result, hresult⟩ := reduceLevels_isSome f hb hne hfuel
  have hfold : foldFirst f items = some result := (foldFirst_reduceLevels f hb hlevels rfl hresult).symm
  rw [treeReduce, if_neg hne, hresult]
  cases items with
  | nil => exact absurd rfl hne
  | cons x xs =>
    cases initialValue with
    | none =>
      rw [leftFold, hfold]
      split_ifs with hone
      · rw [List.length_eq_zero_iff.mp (Nat.succ.inj hone.1)] at hfold
        rw [← hfold]
        rfl
      · rfl
    | some value =>
      have hassoc : (x :: xs).foldl f value = f value result := by
        rw [foldFirst, Option.some.injEq] at hfold
        rw [List.foldl_cons, List.foldl_assoc, hfold]
      rw [leftFold, hassoc, if_neg (fun h => by cases h.2)]
      rfl

/-- **Tree reduction is the fold from the left** for all associative operators and all lists of `n` items,
iff no level leaves one item over. -/
theorem treeReduce_eq_leftFold_iff {n b : Nat} (hn : 0 < n) (hb : 2 ≤ b) :
    (∀ (α : Type) (f : α → α → α), Std.Associative f → ∀ (items : List α) (initialValue : Option α),
      items.length = n → ∀ fuel, n ≤ fuel →
        treeReduce f b fuel items initialValue = some (leftFold f items initialValue)) ↔
      NoneLeftOver b n := by
  constructor
  · intro h
    by_contra hover
    let items := true :: List.replicate (n - 1) false
    have hlength : items.length = n := by
      rw [List.length_cons, List.length_replicate]
      omega
    have hled : Led items := ⟨_, rfl, fun x => List.eq_of_mem_replicate⟩
    have hne : items ≠ [] := List.cons_ne_nil _ _
    obtain ⟨result, hresult⟩ := reduceLevels_isSome (fun a _ => a) hb hne (Nat.le_of_eq hlength)
    have hmany : ¬ (items.length = 1 ∧ (none : Option Bool).isNone) := by
      rintro ⟨hone, -⟩
      rw [← hlength, hone] at hover
      exact hover .root
    have hreturns := h Bool (fun a _ => a) ⟨fun _ _ _ => rfl⟩ items none hlength n (Nat.le_refl n)
    rw [treeReduce, if_neg hne, if_neg hmany, hresult, leftFold, foldFirst_keep] at hreturns
    obtain ⟨rest, hrest, -⟩ := hled.misled_reduceLevels hb (hlength ▸ hover) hresult
    cases hrest
    cases hreturns
  · rintro hlevels α f hassoc items initialValue rfl fuel hfuel
    exact treeReduce_eq_leftFold f hb hlevels (List.ne_nil_of_length_pos hn) initialValue hfuel

/-- Five items in groups of three leave a group of two. -/
theorem treeReduce_eq_leftFold_five :
    treeReduce (· ++ ·) 3 5 ["a", "b", "c", "d", "e"] (some "=") =
      some (leftFold (· ++ ·) ["a", "b", "c", "d", "e"] (some "=")) :=
  (treeReduce_eq_leftFold_iff (by decide) (by decide)).mpr
    (.level (by decide) (by decide) (.level (by decide) (by decide) .root)) String (· ++ ·)
    ⟨fun _ _ _ => String.append_assoc⟩ _ _ rfl 5 (Nat.le_refl 5)

/-- **Three items in pairs**: the third comes first. -/
theorem treeReduce_three :
    treeReduce (· ++ ·) 2 3 ["a", "b", "c"] none = some (some "cab") ∧
      leftFold (· ++ ·) ["a", "b", "c"] none = some "abc" := by
  decide +kernel

end MeshWeaver.DistributedMapReduce
