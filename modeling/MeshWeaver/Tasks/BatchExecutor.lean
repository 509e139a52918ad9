import Mathlib.Algebra.BigOperators.Group.List.Basic
import Mathlib.Algebra.Ring.Nat
import MeshWeaver.Lib.Chunks
import MeshWeaver.Lib.Gather
import MeshWeaver.Lib.Nearest

/-!
# Batches

`ParallelBatchExecutor.map` applies a function to all items, one task for each item or for each chunk. A chunk that
holds an item that raises leaves one exception for all its items and counts all of them as failed. `dispatch_task`
returns or raises what the callable does. A worker catches an `Exception`; a `BaseException` that is none, such as
`CancelledError`, is not counted and loses its place. The duration and the tripped nodes of the metrics are left out,
and so are `KeyboardInterrupt` and `SystemExit`, which end the event loop.
-/

namespace MeshWeaver

open Lib Workers

structure BatchMetrics where
  totalItems : Nat
  completedItems : Nat
  failedItems : Nat
deriving DecidableEq

structure ParallelBatchExecutor where
  defaultConcurrency : Int

namespace ParallelBatchExecutor

variable {α β γ ε : Type}

section
-- whether an exception is an `Exception`
variable (isException : ε → Bool)

/-- What a worker leaves in the metrics: all items of its task are completed, or have failed. -/
def record (metrics : BatchMetrics) (task : Nat × Except ε γ) : BatchMetrics :=
  match task.2 with
  | .ok _ => { metrics with completedItems := metrics.completedItems + task.1 }
  | .error exc =>
    if isException exc then { metrics with failedItems := metrics.failedItems + task.1 } else metrics

def workerOutcome (returnExceptions : Bool) (idx : Nat) : Except ε γ → Except ε (Nat × Except ε γ)
  | .ok res => .ok (idx, .ok res)
  | .error exc => if isException exc && returnExceptions then .ok (idx, .error exc) else .error exc

end

/-- `x[0] if isinstance(x, tuple) else -1` -/
def resultKey : Except ε (Nat × Except ε γ) → Int
  | .ok (idx, _) => idx
  | .error _ => -1

/-- The raw results in the order of their numbers, an exception that was not caught before all others. -/
def ordered (rawResults : List (Except ε (Nat × Except ε γ))) : List (Except ε γ) :=
  (sortBy resultKey rawResults).map fun
    | .ok (_, res) => res
    | .error exc => .error exc

/-- The results of tasks, each with the number of its items, in their order; and the metrics. `none` while `gather`
waits. -/
def workerResults (isException : ε → Bool) (total : Nat) (returnExceptions : Bool) (tasks : List (Nat × Except ε γ))
    (finished : List Nat) : Option (Except ε (List (Except ε γ) × BatchMetrics)) :=
  let metrics := (finished.filterMap fun i => tasks[i]?).foldl (record isException) ⟨total, 0, 0⟩
  let workers := tasks.zipIdx.map fun task => workerOutcome isException returnExceptions task.2 task.1.2
  let rawResults :=
    if returnExceptions then (gatherAll workers finished).map .ok
    else (gather workers finished).map (Except.map (List.map .ok))
  match rawResults with
  | none => none
  | some (.error e) => some (.error e)
  | some (.ok rawResults) => some (.ok (ordered rawResults, metrics))

/-- What the result of a chunk adds to the ordered items: a list is added item by item, an exception is
added once. -/
def chunkItems : Except ε (List β) → List (Except ε β)
  | .ok res => res.map .ok
  | .error exc => [.error exc]

/-- How many tasks run at a time: `concurrency or self.default_concurrency`, which is at least 1. -/
def limit (executor : ParallelBatchExecutor) (concurrency : Option Int) : Nat :=
  (orDefault concurrency (max 1 executor.defaultConcurrency)).toNat

def map (isException : ε → Bool) (executor : ParallelBatchExecutor) (func : α → Except ε β) (items : List α)
    (chunkSize : Int) (concurrency : Option Int) (returnExceptions : Bool) (turns : List Turn) :
    Option (Except ε (List (Except ε β) × BatchMetrics)) :=
  if items = [] then some (.ok ([], ⟨0, 0, 0⟩))
  else
    let limit := executor.limit concurrency
    if chunkSize > 1 then
      let tasks := (chunks chunkSize.toNat items).map fun chunk => (chunk.length, chunk.mapM func)
      match workerResults isException items.length returnExceptions tasks
        (after limit tasks.length turns).finished with
      | none => none
      | some (.error e) => some (.error e)
      | some (.ok (chunkResults, metrics)) =>
        some (.ok (chunkResults.flatMap chunkItems, metrics))
    else
      let tasks := items.map fun item => (1, func item)
      workerResults isException items.length returnExceptions tasks
        (after limit tasks.length turns).finished

/-! ### The workers -/

section Workers

variable (isException : ε → Bool) (tasks : List (Nat × Except ε γ))

/-- The worker goes on: the task returned, or raised an `Exception`. -/
def counted : Except ε γ → Bool
  | .ok _ => true
  | .error exc => isException exc

def completed : Nat := (tasks.map fun task => if task.2.isOk then task.1 else 0).sum

def failed : Nat := (tasks.map fun task => if !task.2.isOk && counted isException task.2 then task.1 else 0).sum

theorem foldl_record (metrics : BatchMetrics) :
    tasks.foldl (record isException) metrics =
      { metrics with
        completedItems := metrics.completedItems + completed tasks
        failedItems := metrics.failedItems + failed isException tasks } := by
  induction tasks generalizing metrics with
  | nil => rfl
  | cons task tasks ih =>
    obtain ⟨size, outcome⟩ := task
    rw [List.foldl_cons, ih]
    cases outcome with
    | ok res => simp [record, completed, failed, Except.isOk, Except.toBool, Nat.add_assoc]
    | error exc =>
      cases hexc : isException exc <;>
        simp [record, completed, failed, counted, hexc, Except.isOk, Except.toBool, Nat.add_assoc]

theorem completed_add_failed : completed tasks + failed isException tasks =
    (tasks.map fun task => if counted isException task.2 then task.1 else 0).sum := by
  rw [completed, failed, ← List.sum_map_add]
  refine congrArg List.sum (List.map_congr_left ?_)
  rintro ⟨size, outcome⟩ -
  cases outcome with
  | ok res => rfl
  | error exc => exact Nat.zero_add _

/-- **All tasks are counted once**, whatever the order in which they finish. -/
theorem workerResults_true (total : Nat) {finished : List Nat} (h : finished.Perm (List.range tasks.length)) :
    workerResults isException total true tasks finished =
      some (.ok (ordered (tasks.zipIdx.map fun task => workerOutcome isException true task.2 task.1.2),
        ⟨total, completed tasks, failed isException tasks⟩)) := by
  have hlength : finished.length =
      (tasks.zipIdx.map fun task => workerOutcome isException true task.2 task.1.2).length := by
    rw [h.length_eq, List.length_range, List.length_map, List.length_zipIdx]
  have hperm := finished_tasks_perm tasks h
  have hcompleted : completed (finished.filterMap fun i => tasks[i]?) = completed tasks :=
    (hperm.map _).sum_nat
  have hfailed : failed isException (finished.filterMap fun i => tasks[i]?) = failed isException tasks :=
    (hperm.map _).sum_nat
  rw [workerResults, gatherAll, if_pos hlength, foldl_record, hcompleted, hfailed, Nat.zero_add, Nat.zero_add]
  rfl

variable {isException tasks}

theorem completed_add_failed_of_counted (h : ∀ task ∈ tasks, counted isException task.2 = true) :
    completed tasks + failed isException tasks = (tasks.map Prod.fst).sum := by
  rw [completed_add_failed]
  exact congrArg List.sum (List.map_congr_left fun task htask => if_pos (h task htask))

/-- **Every result is at the place of its task** if all tasks were counted. -/
theorem ordered_of_counted (h : ∀ task ∈ tasks, counted isException task.2 = true) :
    ordered (tasks.zipIdx.map fun task => workerOutcome isException true task.2 task.1.2) = tasks.map Prod.snd := by
  have houtcome : ∀ task ∈ tasks.zipIdx,
      workerOutcome isException true task.2 task.1.2 = .ok (task.2, task.1.2) := by
    rintro ⟨⟨size, outcome⟩, idx⟩ htask
    have hcounted := h _ (List.fst_mem_of_mem_zipIdx htask)
    cases outcome with
    | ok res => rfl
    | error exc => simp_all [workerOutcome, counted]
  have hsorted : (tasks.zipIdx.map fun task => (.ok (task.2, task.1.2) : Except ε _)).Pairwise
      (fun a b : Except ε (Nat × Except ε γ) => resultKey a ≤ resultKey b) := by
    have hindexes : (tasks.zipIdx.map Prod.snd).Pairwise (· ≤ ·) := by
      rw [List.zipIdx_map_snd]
      exact (List.pairwise_lt_range' ..).imp Nat.le_of_lt
    exact List.pairwise_map.mpr ((List.pairwise_map.mp hindexes).imp Int.ofNat_le.mpr)
  rw [List.map_congr_left houtcome, ordered, sortBy, hsorted.insertionSort_eq, List.map_map]
  conv_rhs => rw [← List.zipIdx_map_fst 0 tasks, List.map_map]
  rfl

end Workers

/-! ### One result for each item -/

def raises (func : α → Except ε β) (item : α) : Bool := !(func item).isOk

/-- Every chunk with an item that raises has no other item. -/
def FailsAlone (func : α → Except ε β) (chunks : List (List α)) : Prop :=
  ∀ chunk ∈ chunks, (∃ item ∈ chunk, raises func item = true) → chunk.length = 1

theorem mapM_cases (func : α → Except ε β) (chunk : List α) :
    (∃ values, chunk.mapM func = .ok values ∧ chunk.map func = values.map .ok ∧
      ∀ item ∈ chunk, raises func item = false) ∨
    ∃ exc, chunk.mapM func = .error exc ∧ ∃ item ∈ chunk, func item = .error exc := by
  induction chunk with
  | nil => exact Or.inl ⟨[], rfl, rfl, fun item hitem => absurd hitem List.not_mem_nil⟩
  | cons item chunk ih =>
    rw [List.mapM_cons]
    cases hitem : func item with
    | error exc => exact Or.inr ⟨exc, rfl, item, List.mem_cons_self, hitem⟩
    | ok value =>
      have hreturns : raises func item = false := by
        rw [raises, hitem]
        rfl
      rcases ih with ⟨values, hvalues, hmap, hnone⟩ | ⟨exc, hexc, other, hother, hraises⟩
      · refine Or.inl ⟨value :: values, by rw [hvalues]; rfl, by rw [List.map_cons, hitem, hmap]; rfl, ?_⟩
        exact List.forall_mem_cons.mpr ⟨hreturns, hnone⟩
      · exact Or.inr ⟨exc, by rw [hexc]; rfl, other, List.mem_cons_of_mem _ hother, hraises⟩

theorem raises_of_error {func : α → Except ε β} {item : α} {exc : ε} (h : func item = .error exc) :
    raises func item = true := by
  rw [raises, h]
  rfl

section
variable {func : α → Except ε β} {isException : ε → Bool}

theorem chunkItems_eq_map {chunk : List α} (h : (∃ item ∈ chunk, raises func item = true) → chunk.length = 1) :
    chunkItems (chunk.mapM func) = chunk.map func := by
  rcases mapM_cases func chunk with ⟨values, hvalues, hmap, -⟩ | ⟨exc, hexc, item, hmem, hitem⟩
  · rw [hvalues, hmap]
    rfl
  · obtain ⟨only, rfl⟩ := List.length_eq_one_iff.mp (h ⟨item, hmem, raises_of_error hitem⟩)
    cases List.mem_singleton.mp hmem
    rw [hexc, List.map_singleton, hitem]
    rfl

theorem length_chunkItems (func : α → Except ε β) (chunk : List α) :
    (chunkItems (chunk.mapM func)).length ≤ chunk.length ∧
    ((chunkItems (chunk.mapM func)).length = chunk.length →
      (∃ item ∈ chunk, raises func item = true) → chunk.length = 1) := by
  rcases mapM_cases func chunk with ⟨values, hvalues, hmap, hnone⟩ | ⟨exc, hexc, item, hitem, -⟩
  · have hlength := congrArg List.length hmap
    rw [List.length_map, List.length_map] at hlength
    rw [hvalues, chunkItems, List.length_map, ← hlength]
    refine ⟨Nat.le_refl _, ?_⟩
    rintro - ⟨item, hitem, hraises⟩
    rw [hnone item hitem] at hraises
    cases hraises
  · rw [hexc, chunkItems, List.length_singleton]
    exact ⟨List.length_pos_of_mem hitem, fun hone _ => hone.symm⟩

theorem length_flatMap_chunkItems_le (func : α → Except ε β) (chunks : List (List α)) :
    (chunks.flatMap fun chunk => chunkItems (chunk.mapM func)).length ≤ chunks.flatten.length := by
  induction chunks with
  | nil => exact Nat.le_refl 0
  | cons chunk chunks ih =>
    rw [List.flatMap_cons, List.flatten_cons, List.length_append, List.length_append]
    exact Nat.add_le_add (length_chunkItems func chunk).1 ih

/-- **The chunks give one result for each item iff they fail alone.** -/
theorem flatMap_chunkItems_eq_iff (func : α → Except ε β) (chunks : List (List α)) :
    chunks.flatMap (fun chunk => chunkItems (chunk.mapM func)) = chunks.flatten.map func ↔
      FailsAlone func chunks := by
  constructor
  · intro h
    have hlength := congrArg List.length h
    rw [List.length_map] at hlength
    clear h
    induction chunks with
    | nil => exact fun chunk hchunk => absurd hchunk List.not_mem_nil
    | cons chunk chunks ih =>
      rw [List.flatMap_cons, List.flatten_cons, List.length_append, List.length_append] at hlength
      obtain ⟨hle, halone⟩ := length_chunkItems func chunk
      have hrest := length_flatMap_chunkItems_le func chunks
      exact List.forall_mem_cons.mpr ⟨halone (by omega), ih (by omega)⟩
  · intro h
    induction chunks with
    | nil => rfl
    | cons chunk chunks ih =>
      obtain ⟨halone, hrest⟩ := List.forall_mem_cons.mp h
      rw [List.flatMap_cons, List.flatten_cons, List.map_append, chunkItems_eq_map halone, ih hrest]

/-! ### The metrics -/

theorem countP_counted (isException : ε → Bool) (func : α → Except ε β) (items : List α) :
    completed (items.map fun item => (1, func item)) + failed isException (items.map fun item => (1, func item)) =
      items.countP fun item => counted isException (func item) := by
  rw [completed_add_failed, List.map_map]
  induction items with
  | nil => rfl
  | cons item items ih =>
    rw [List.map_cons, List.sum_cons, ih, List.countP_cons, Nat.add_comm]
    rfl

theorem failed_items {items : List α} (h : ∀ item ∈ items, counted isException (func item) = true) :
    failed isException (items.map fun item => (1, func item)) = items.countP (raises func) := by
  induction items with
  | nil => rfl
  | cons item items ih =>
    obtain ⟨hitem, hrest⟩ := List.forall_mem_cons.mp h
    have hrest := ih hrest
    rw [failed, List.map_map] at hrest
    rw [failed, List.map_map, List.map_cons, List.sum_cons, hrest, List.countP_cons, Nat.add_comm]
    simp [raises, hitem]

theorem counted_mapM {chunk : List α} (h : ∀ item ∈ chunk, counted isException (func item) = true) :
    counted isException (chunk.mapM func) = true := by
  rcases mapM_cases func chunk with ⟨values, hvalues, -, -⟩ | ⟨exc, hexc, item, hmem, hitem⟩
  · rw [hvalues]
    rfl
  · have hcounted := h item hmem
    rw [hitem] at hcounted
    rwa [hexc]

theorem counted_chunks {chunks : List (List α)}
    (h : ∀ item ∈ chunks.flatten, counted isException (func item) = true) :
    ∀ task ∈ chunks.map fun chunk => (chunk.length, chunk.mapM func), counted isException task.2 = true :=
  List.forall_mem_map.mpr fun _ hchunk => counted_mapM fun item hitem =>
    h item (List.mem_flatten_of_mem hchunk hitem)

theorem failed_chunks {chunks : List (List α)} (h : FailsAlone func chunks)
    (hcounted : ∀ item ∈ chunks.flatten, counted isException (func item) = true) :
    failed isException (chunks.map fun chunk => (chunk.length, chunk.mapM func)) =
      chunks.flatten.countP (raises func) := by
  induction chunks with
  | nil => rfl
  | cons chunk chunks ih =>
    obtain ⟨halone, hrest⟩ := List.forall_mem_cons.mp h
    rw [List.flatten_cons, List.forall_mem_append] at hcounted
    have hrest := ih hrest hcounted.2
    rw [failed, List.map_map] at hrest
    rw [failed, List.map_map, List.map_cons, List.sum_cons, hrest, List.flatten_cons, List.countP_append]
    congr 1
    rcases mapM_cases func chunk with ⟨values, hvalues, -, hnone⟩ | ⟨exc, hexc, item, hmem, hitem⟩
    · rw [Function.comp_apply, hvalues, List.countP_eq_zero.mpr fun item hitem => by simp [hnone item hitem]]
      rfl
    · obtain ⟨only, rfl⟩ := List.length_eq_one_iff.mp (halone ⟨item, hmem, raises_of_error hitem⟩)
      have hchunk := counted_mapM hcounted.1
      simp_all [raises, Except.isOk, Except.toBool]

theorem failsAlone_one (items : List α) : FailsAlone func (chunks 1 items) := by
  rintro chunk hchunk ⟨item, hitem, -⟩
  have hle := length_le_of_mem_chunks hchunk
  have hpos := List.length_pos_of_mem hitem
  omega

end

def taskCount (items : List α) (chunkSize : Int) : Nat :=
  if chunkSize > 1 then (chunks chunkSize.toNat items).length else items.length

section
variable (isException : ε → Bool) (executor : ParallelBatchExecutor) (func : α → Except ε β) (items : List α)
  {chunkSize : Int} (concurrency : Option Int) (hlimit : 0 < executor.limit concurrency) {turns : List Turn}
  (hsettled : (after (executor.limit concurrency) (taskCount items chunkSize) turns).Settled
    (executor.limit concurrency))
include hlimit hsettled

theorem map_items (hchunk : ¬ chunkSize > 1) :
    let tasks := items.map fun item => (1, func item)
    executor.map isException func items chunkSize concurrency true turns =
      some (.ok (ordered (tasks.zipIdx.map fun task => workerOutcome isException true task.2 task.1.2),
        ⟨items.length, completed tasks, failed isException tasks⟩)) := by
  intro tasks
  rw [taskCount, if_neg hchunk] at hsettled
  have hfinished := hsettled.finished_perm hlimit
  rw [map]
  split_ifs with hempty
  · subst hempty
    rfl
  · rw [← List.length_map (fun item => (1, func item))] at hfinished
    exact workerResults_true isException tasks _ hfinished

theorem map_chunks (hchunk : chunkSize > 1) :
    let tasks := (chunks chunkSize.toNat items).map fun chunk => (chunk.length, chunk.mapM func)
    executor.map isException func items chunkSize concurrency true turns =
      some (.ok ((ordered (tasks.zipIdx.map fun task =>
          workerOutcome isException true task.2 task.1.2)).flatMap chunkItems,
        ⟨items.length, completed tasks, failed isException tasks⟩)) := by
  intro tasks
  rw [taskCount, if_pos hchunk] at hsettled
  have hfinished := hsettled.finished_perm hlimit
  rw [map]
  split_ifs with hempty
  · subst hempty
    have htasks : tasks = [] := by
      dsimp only [tasks]
      rw [chunks_nil (by omega), List.map_nil]
    rw [htasks]
    rfl
  · rw [← List.length_map (fun chunk => (chunk.length, chunk.mapM func))] at hfinished
    dsimp only
    rw [workerResults_true _ _ _ hfinished]

end

/-- **A batch has one result for each item** for every schedule that leaves nothing to do, iff nothing but an
`Exception` is raised and every chunk with an item that raises has no other item; and every schedule can be continued
until nothing is left to do. -/
theorem map_one_result_iff (isException : ε → Bool) (executor : ParallelBatchExecutor) (func : α → Except ε β)
    (items : List α) {chunkSize : Int} (hchunk : 1 ≤ chunkSize) (concurrency : Option Int)
    (hlimit : 1 ≤ orDefault concurrency (max 1 executor.defaultConcurrency)) :
    (∀ turns turns' : List Turn,
      (after (executor.limit concurrency) (taskCount items chunkSize) turns).Settled
        (executor.limit concurrency) →
      (after (executor.limit concurrency) items.length turns').Settled (executor.limit concurrency) →
      ((∃ metrics, executor.map isException func items chunkSize concurrency true turns =
            some (.ok (items.map func, metrics)) ∧
          executor.map isException func items 1 concurrency true turns' =
            some (.ok (items.map func, metrics)) ∧
          metrics.completedItems + metrics.failedItems = metrics.totalItems ∧
          metrics.totalItems = items.length ∧ metrics.failedItems = items.countP (raises func)) ↔
        (∀ item ∈ items, counted isException (func item) = true) ∧
          FailsAlone func (chunks chunkSize.toNat items))) ∧
    ∀ (n : Nat) (turns : List Turn),
      ∃ more, (after (executor.limit concurrency) n (turns ++ more)).Settled
        (executor.limit concurrency) := by
  have hpos : 0 < executor.limit concurrency := by
    rw [limit]
    omega
  refine ⟨fun turns turns' hsettled hsettled' => ?_, exists_settled hpos⟩
  have hone : executor.map isException func items 1 concurrency true turns' = _ :=
    map_items isException executor func items concurrency hpos hsettled' (by decide)
  have hsum := countP_counted isException func items
  by_cases hcounted : ∀ item ∈ items, counted isException (func item) = true
  swap
  · -- what was not caught is missing in the metrics of the call without chunks
    refine iff_of_false ?_ fun h => hcounted h.1
    rintro ⟨metrics, -, hmetrics, htotal, hlength, -⟩
    rw [hone, Option.some.injEq, Except.ok.injEq, Prod.mk.injEq] at hmetrics
    rw [← hmetrics.2, hsum] at htotal
    exact hcounted (List.countP_eq_length.mp htotal)
  have hones : ∀ task ∈ items.map fun item => (1, func item), counted isException task.2 = true :=
    List.forall_mem_map.mpr hcounted
  rw [List.countP_eq_length.mpr hcounted] at hsum
  rw [ordered_of_counted hones, List.map_map, failed_items hcounted] at hone
  rw [failed_items hcounted] at hsum
  rw [and_iff_right hcounted, hone]
  by_cases hmany : chunkSize > 1
  · have hflatten : (chunks chunkSize.toNat items).flatten = items := Lib.flatten_chunks (by omega) items
    have hresults := flatMap_chunkItems_eq_iff func (chunks chunkSize.toNat items)
    have hchunked : ∀ item ∈ (chunks chunkSize.toNat items).flatten, counted isException (func item) = true := by
      rwa [hflatten]
    rw [map_chunks isException executor func items concurrency hpos hsettled hmany,
      ordered_of_counted (counted_chunks hchunked), List.map_map, List.flatMap_map]
    rw [hflatten] at hresults
    constructor
    · rintro ⟨metrics, heq, -⟩
      rw [Option.some.injEq, Except.ok.injEq, Prod.mk.injEq] at heq
      exact hresults.mp heq.1
    · intro halone
      have hchunks := completed_add_failed_of_counted (counted_chunks hchunked)
      have hlengths : ((chunks chunkSize.toNat items).map List.length).sum = items.length := by
        rw [← List.length_flatten, hflatten]
      rw [List.map_map, failed_chunks halone hchunked, hflatten] at hchunks
      rw [failed_chunks halone hchunked, hflatten, Nat.add_right_cancel (hchunks.trans (hlengths.trans hsum.symm))]
      exact ⟨_, by rw [← hresults.mpr halone]; rfl, rfl, hsum, rfl, rfl⟩
  · have hsize : chunkSize.toNat = 1 := by omega
    have hsame : executor.map isException func items chunkSize concurrency true turns = _ :=
      map_items isException executor func items concurrency hpos hsettled hmany
    rw [ordered_of_counted hones, List.map_map, failed_items hcounted] at hsame
    rw [hsame, hsize]
    exact iff_of_true ⟨_, rfl, rfl, hsum, rfl, rfl⟩ (failsAlone_one items)

/-- The last of three items raises, and is alone in its chunk. -/
theorem map_one_result_last :
    let func (n : Nat) : Except String Nat := if n = 3 then .error "three" else .ok (10 * n)
    let turns (order : List Nat) : List Turn := order.flatMap fun i => [.start i, .finish i]
    ∃ metrics, (⟨10⟩ : ParallelBatchExecutor).map (· ≠ "cancelled") func [1, 2, 3] 2 (some 1) true (turns [1, 0]) =
        some (.ok ([.ok 10, .ok 20, .error "three"], metrics)) ∧ metrics.failedItems = 1 := by
  intro func turns
  have hsize : (1 : Int) ≤ 2 := by decide
  have halone : FailsAlone func (chunks 2 [1, 2, 3]) := by
    unfold FailsAlone
    decide +kernel
  obtain ⟨metrics, hmap, -, -, -, hfailed⟩ := ((map_one_result_iff (· ≠ "cancelled") ⟨10⟩ func [1, 2, 3] hsize
    (some 1) (by decide)).1 (turns [1, 0]) (turns [2, 0, 1])
    (settled_of_empty (by decide +kernel) (by decide +kernel))
    (settled_of_empty (by decide +kernel) (by decide +kernel))).mpr ⟨by decide, halone⟩
  exact ⟨metrics, hmap, hfailed⟩

/-- **Two items in one chunk, of which the second raises**: there is one result for both, and both are counted as
failed. A `CancelledError` is not counted, and stands before the result of the first item even without chunks. -/
theorem map_chunk_of_two :
    let func (exc : String) (n : Nat) : Except String Nat := if n = 2 then .error exc else .ok (10 * n)
    let turns (order : List Nat) : List Turn := order.flatMap fun i => [.start i, .finish i]
    let map (exc : String) := (⟨10⟩ : ParallelBatchExecutor).map (· ≠ "cancelled") (func exc) [1, 2]
    map "two" 2 none true (turns [0]) = some (.ok ([.error "two"], ⟨2, 0, 2⟩)) ∧
      map "two" 1 none true (turns [0, 1]) = some (.ok ([.ok 10, .error "two"], ⟨2, 1, 1⟩)) ∧
      map "cancelled" 1 none true (turns [0, 1]) =
        some (.ok ([.error "cancelled", .ok 10], ⟨2, 1, 0⟩)) := by
  intro func turns map
  refine ⟨?_, ?_, ?_⟩ <;> decide +kernel

end ParallelBatchExecutor

end MeshWeaver
