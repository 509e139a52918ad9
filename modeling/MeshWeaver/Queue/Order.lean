import Mathlib.Tactic.Linarith
import MeshWeaver.Queue.Tasks

/-!
# The order of the queue

Two tasks whose priorities are close are ordered by their sequence numbers, all others by their priorities. That is
no order in general: `x` can be before `z` by priority, while `z` is close to `y` and came first, and `y` is close
to `x` and came first. Without such tasks in the queue it is a strict total order; then `pop` returns a task that
none precedes, and there is one way only to list the tasks in order.
-/

namespace MeshWeaver

namespace PrioritizedTask

variable {x y z : PrioritizedTask} {now : Rat}

theorem lt_iff : x.lt y now = true ↔
    x.effectivePriority now + 1 / 10000 < y.effectivePriority now ∨
      (x.effectivePriority now ≤ y.effectivePriority now + 1 / 10000 ∧
        y.effectivePriority now ≤ x.effectivePriority now + 1 / 10000) ∧ x.sequence < y.sequence := by
  rw [lt]
  split_ifs with hfar
  · rw [decide_eq_true_eq]
    rcases lt_abs.mp hfar with hfar | hfar
    · exact iff_of_false (by linarith) (by rintro (h | ⟨⟨h, -⟩, -⟩) <;> linarith)
    · exact iff_of_true (by linarith) (Or.inl (by linarith))
  · rw [decide_eq_true_eq]
    obtain ⟨hlow, hhigh⟩ := abs_le.mp (not_lt.mp hfar)
    constructor
    · exact fun h => Or.inr ⟨⟨by linarith, by linarith⟩, h⟩
    · rintro (h | ⟨-, h⟩)
      · linarith
      · exact h

theorem lt_asymm (h : x.lt y now = true) : y.lt x now = false := by
  rw [← Bool.not_eq_true, lt_iff]
  rcases lt_iff.mp h with hfar | ⟨⟨hlow, hhigh⟩, hseq⟩
  · rintro (hback | ⟨⟨hback, -⟩, -⟩) <;> linarith
  · rintro (hback | ⟨-, hback⟩)
    · linarith
    · omega

theorem lt_or_lt (h : x.sequence ≠ y.sequence) : x.lt y now = true ∨ y.lt x now = true := by
  rw [lt_iff, lt_iff]
  rcases lt_or_ge (x.effectivePriority now + 1 / 10000) (y.effectivePriority now) with hfar | hlow
  · exact Or.inl (Or.inl hfar)
  rcases lt_or_ge (y.effectivePriority now + 1 / 10000) (x.effectivePriority now) with hfar | hhigh
  · exact Or.inr (Or.inl hfar)
  rcases lt_or_gt_of_ne h with hseq | hseq
  · exact Or.inl (Or.inr ⟨⟨hhigh, hlow⟩, hseq⟩)
  · exact Or.inr (Or.inr ⟨⟨hlow, hhigh⟩, hseq⟩)

/-- `x` is before `z` by priority, but both are close to `y`, which came after `z` and before `x`. -/
def Straddles (now : Rat) (x y z : PrioritizedTask) : Prop :=
  (z.sequence < y.sequence ∧ y.sequence < x.sequence) ∧
    x.effectivePriority now + 1 / 10000 < z.effectivePriority now ∧
    z.effectivePriority now ≤ y.effectivePriority now + 1 / 10000 ∧
    y.effectivePriority now ≤ x.effectivePriority now + 1 / 10000
deriving Decidable

/-- **Three tasks in a circle** are such tasks, wherever the circle is entered. -/
theorem straddles_of_circle (hxy : x.lt y now = true) (hyz : y.lt z now = true) (hzx : z.lt x now = true) :
    Straddles now x z y ∨ Straddles now y x z ∨ Straddles now z y x := by
  rw [lt_iff] at hxy hyz hzx
  -- one step of the circle goes by priority, and the two others go back by sequence
  rcases hxy with hxy | ⟨hxy, hseq⟩
  · obtain ⟨hyz, hseq⟩ := hyz.resolve_left fun hyz => by rcases hzx with hzx | ⟨hzx, -⟩ <;> linarith
    obtain ⟨hzx, hseq'⟩ := hzx.resolve_left fun hzx => by linarith
    exact Or.inl ⟨⟨hseq, hseq'⟩, hxy, hyz.1, hzx.1⟩
  · rcases hyz with hyz | ⟨hyz, hseq'⟩
    · obtain ⟨hzx, hseq'⟩ := hzx.resolve_left fun hzx => by linarith
      exact Or.inr (Or.inl ⟨⟨hseq', hseq⟩, hyz, hzx.1, hxy.1⟩)
    · rcases hzx with hzx | ⟨-, hseq''⟩
      · exact Or.inr (Or.inr ⟨⟨hseq, hseq'⟩, hzx, hxy.1, hyz.1⟩)
      · omega

end PrioritizedTask

open PrioritizedTask (Straddles lt_iff lt_asymm lt_or_lt straddles_of_circle)

structure StrictTotalOn {α : Type} (lt : α → α → Bool) (l : List α) : Prop where
  irrefl : ∀ x ∈ l, lt x x = false
  trans : ∀ x ∈ l, ∀ y ∈ l, ∀ z ∈ l, lt x y = true → lt y z = true → lt x z = true
  total : ∀ x ∈ l, ∀ y ∈ l, x = y ∨ lt x y = true ∨ lt y x = true

theorem StrictTotalOn.orderOn {α : Type} {lt : α → α → Bool} {l : List α} (h : StrictTotalOn lt l) :
    Lib.Heap.OrderOn lt (· ∈ l) := by
  have hasymm : ∀ x y, x ∈ l → y ∈ l → lt x y = true → lt y x = false := by
    intro x y hx hy hxy
    by_contra hyx
    rw [Bool.not_eq_false] at hyx
    exact absurd (h.trans x hx y hy x hx hxy hyx) (by rw [h.irrefl x hx]; decide)
  refine ⟨hasymm, fun x y z hx hy hz hyx hzy => ?_⟩
  rcases h.total x hx y hy with rfl | hxy | hback
  · exact hzy
  · rcases h.total y hy z hz with rfl | hyz | hback
    · exact hyx
    · exact hasymm x z hx hz (h.trans x hx y hy z hz hxy hyz)
    · rw [hzy] at hback
      cases hback
  · rw [hyx] at hback
    cases hback

theorem StrictTotalOn.of_perm {α : Type} {lt : α → α → Bool} {l l' : List α} (h : StrictTotalOn lt l)
    (hperm : l'.Perm l) : StrictTotalOn lt l' where
  irrefl x hx := h.irrefl x (hperm.mem_iff.mp hx)
  trans x hx y hy z hz := h.trans x (hperm.mem_iff.mp hx) y (hperm.mem_iff.mp hy) z (hperm.mem_iff.mp hz)
  total x hx y hy := h.total x (hperm.mem_iff.mp hx) y (hperm.mem_iff.mp hy)

namespace PriorityTaskQueue

section Statements

variable (queue : PriorityTaskQueue) (now : Rat)

/-- `pop` returns a task that no queued task precedes, if there is one, and keeps the others. -/
def PopsFirst : Prop :=
  queue.heap ≠ [] → ∃ task rest, queue.pop (fun _ => now) = some (task, rest) ∧
    (task :: rest.heap).Perm queue.heap ∧ ∀ other ∈ queue.heap, other.lt task now = false

/-- The snapshot lists the tasks in order, and there is no other way to do so. -/
def ListsInOrder : Prop :=
  ∃ tasks : List PrioritizedTask, (queue.getEffectiveQueueSnapshot now).2 = tasks.map (queue.snapshotItem now) ∧
    tasks.Perm queue.heap ∧ (tasks.Pairwise fun x y => x.lt y now = true) ∧
    ∀ l, l.Perm queue.heap → (l.Pairwise fun x y => y.lt x now = false) → l = tasks

end Statements

variable {queue : PriorityTaskQueue} {now : Rat}

theorem strictTotalOn_iff (hseq : (queue.heap.map PrioritizedTask.sequence).Nodup) :
    StrictTotalOn (fun x y => x.lt y now) queue.heap ↔
      ∀ x ∈ queue.heap, ∀ y ∈ queue.heap, ∀ z ∈ queue.heap, ¬ Straddles now x y z := by
  constructor
  · rintro h x hx y hy z hz ⟨⟨hzy, hyx⟩, hfar, hclose, hclose'⟩
    have hxz : x.lt z now = true := lt_iff.mpr (Or.inl hfar)
    have hback := h.trans z hz y hy x hx (lt_iff.mpr (Or.inr ⟨⟨hclose, by linarith⟩, hzy⟩))
      (lt_iff.mpr (Or.inr ⟨⟨hclose', by linarith⟩, hyx⟩))
    rw [lt_asymm hxz] at hback
    cases hback
  · intro h
    have htotal : ∀ x ∈ queue.heap, ∀ y ∈ queue.heap, x = y ∨ x.lt y now = true ∨ y.lt x now = true :=
      fun x hx y hy => or_iff_not_imp_left.mpr fun hne =>
        lt_or_lt fun heq => hne (List.inj_on_of_nodup_map hseq hx hy heq)
    refine ⟨fun x hx => ?_, fun x hx y hy z hz hxy hyz => ?_, htotal⟩
    · by_contra hxx
      exact hxx (lt_asymm (Bool.not_eq_false _ ▸ hxx))
    · rcases htotal x hx z hz with rfl | hxz | hzx
      · rw [lt_asymm hxy] at hyz
        cases hyz
      · exact hxz
      · rcases straddles_of_circle hxy hyz hzx with hbad | hbad | hbad
        · exact absurd hbad (h x hx z hz y hy)
        · exact absurd hbad (h y hy x hx z hz)
        · exact absurd hbad (h z hz y hy x hx)

theorem popsFirst_of_strictTotalOn (h : StrictTotalOn (fun x y => x.lt y now) queue.heap) : queue.PopsFirst now := by
  intro hne
  obtain ⟨task, heap, hpop, hfirst, hperm⟩ := queue.pop_spec (fun _ => now) hne
  refine ⟨task, _, hpop, hperm, fun other hother => ?_⟩
  have hmem := fun x => (queue.reheapify_perm fun _ => now).mem_iff (a := x)
  have hheap := Lib.Heap.orderedFrom_heapify h.orderOn (fun _ hx => hx) queue.heap.length
  exact hheap.root h.orderOn (fun x hx => (hmem x).mp hx) hfirst other ((hmem other).mpr hother)

theorem pairwise_insertionSort_of_orderOn {α : Type} {lt : α → α → Bool} {l : List α}
    (h : Lib.Heap.OrderOn lt (· ∈ l)) :
    (l.insertionSort fun x y => lt y x = false).Pairwise fun x y => lt y x = false := by
  let r : {x // x ∈ l} → {x // x ∈ l} → Prop := fun x y => lt y.1 x.1 = false
  have htotal : Std.Total r := ⟨fun x y => by
    by_cases hxy : lt x.1 y.1 = true
    · exact Or.inl (h.asymm x.1 y.1 x.2 y.2 hxy)
    · exact Or.inr (Bool.eq_false_iff.mpr hxy)⟩
  have htrans : IsTrans {x // x ∈ l} r := ⟨fun x y z => h.trans x.1 y.1 z.1 x.2 y.2 z.2⟩
  have hmap := List.map_insertionSort r (fun x y => lt y x = false) Subtype.val l.attach fun _ _ _ _ => Iff.rfl
  rw [List.attach_map_subtype_val] at hmap
  rw [← hmap, List.pairwise_map]
  exact List.pairwise_insertionSort r l.attach

theorem listsInOrder_of_strictTotalOn (hnodup : queue.heap.Nodup)
    (h : StrictTotalOn (fun x y => x.lt y now) queue.heap) : queue.ListsInOrder now := by
  have hheap := queue.reheapify_perm fun _ => now
  have hsorted := pairwise_insertionSort_of_orderOn (h.of_perm hheap).orderOn
  have hperm : ((queue.reheapify fun _ => now).1.sortedTasks now).Perm queue.heap :=
    (List.perm_insertionSort _ _).trans hheap
  refine ⟨_, rfl, hperm, ?_, fun l hl hordered => ?_⟩
  · have hdistinct := hperm.nodup_iff.mpr hnodup
    refine (hsorted.and hdistinct).imp_of_mem fun {x y} hx hy hxy => ?_
    rcases h.total x (hperm.mem_iff.mp hx) y (hperm.mem_iff.mp hy) with heq | hlt | hback
    · exact absurd heq hxy.2
    · exact hlt
    · rw [hxy.1] at hback
      cases hback
  · refine (hl.trans hperm.symm).eq_of_pairwise ?_ hordered hsorted
    intro x y hx hy hyx hxy
    rcases h.total x (hl.mem_iff.mp hx) y (hperm.mem_iff.mp hy) with heq | hlt | hback
    · exact heq
    · rw [hxy] at hlt
      cases hlt
    · rw [hyx] at hback
      cases hback

/-- **The comparison is an order** on the queued tasks, with what follows from it for `pop` and the snapshot, just if
no three of them straddle the tolerance. -/
theorem in_order_iff (queue : PriorityTaskQueue) (hseq : (queue.heap.map PrioritizedTask.sequence).Nodup) (now : Rat) :
    StrictTotalOn (fun x y => x.lt y now) queue.heap ∧ queue.PopsFirst now ∧ queue.ListsInOrder now ↔
      ∀ x ∈ queue.heap, ∀ y ∈ queue.heap, ∀ z ∈ queue.heap, ¬ Straddles now x y z := by
  rw [← strictTotalOn_iff hseq]
  exact ⟨fun h => h.1, fun h => ⟨h, popsFirst_of_strictTotalOn h, listsInOrder_of_strictTotalOn hseq.of_map h⟩⟩

def filled (tasks : List PrioritizedTask) : PriorityTaskQueue :=
  tasks.foldl (fun queue task => queue.push task fun _ => task.createdAt) {}

/-- The older a task, the lower its priority. -/
theorem in_order_apart :
    let queue := filled [⟨"index", .background, 0, none, none, 0, false, 2, 2⟩,
      ⟨"sync", .normal, 5, none, none, 0, false, 2, 2⟩, ⟨"query", .high, 7, none, none, 0, false, 2, 2⟩]
    StrictTotalOn (fun x y => x.lt y 10) queue.heap ∧ queue.PopsFirst 10 ∧ queue.ListsInOrder 10 :=
  (in_order_iff _ (by decide +kernel) 10).mpr (by decide +kernel)

def threeTasks : PriorityTaskQueue :=
  filled [⟨"first", .background, 0, none, none, 0, false, 2, 2⟩,
    ⟨"second", .low, 2 - 15 / 100000, none, none, 0, false, 2, 2⟩,
    ⟨"third", .normal, 4 - 30 / 100000, none, none, 0, false, 2, 2⟩]

/-- Each of them precedes another one, and is preceded by one. -/
theorem not_in_order_three :
    (threeTasks.heap.map PrioritizedTask.sequence).Nodup ∧
      ¬ StrictTotalOn (fun x y => x.lt y 10) threeTasks.heap ∧ ¬ threeTasks.PopsFirst 10 := by
  have hpreceded : ∀ task ∈ threeTasks.heap, ∃ other ∈ threeTasks.heap, other.lt task 10 = true := by
    decide +kernel
  have hfails : ¬ threeTasks.PopsFirst 10 := by
    intro h
    obtain ⟨task, rest, -, hperm, hfirst⟩ := h (by decide +kernel)
    obtain ⟨other, hother, hlt⟩ := hpreceded task (hperm.mem_iff.mp List.mem_cons_self)
    rw [hfirst other hother] at hlt
    cases hlt
  exact ⟨by decide +kernel, fun h => hfails (popsFirst_of_strictTotalOn h), hfails⟩

end PriorityTaskQueue

end MeshWeaver
