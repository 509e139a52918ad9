import Mathlib.Algebra.Ring.Nat
import MeshWeaver.Lib.Chunks
import MeshWeaver.Lib.Gather
import MeshWeaver.Lib.Group

/-!
# MapReduce

`DistributedMapReduce.execute_map_reduce` maps a list in chunks, groups the pairs by key and reduces each group; both
phases are dispatched as tasks that finish in any order. `dispatch_task` returns or raises what the callable does. Keys
are compared by an equivalence. The durations and the tripped nodes of the metrics are left out.
-/

namespace MeshWeaver

open Lib

inductive MapOutput (κ β : Type) where
  | pairs (pairs : List (κ × β))
  | pair (pair : κ × β)
  | none

/-- What is added to the pairs for an item: `extend(res)` for a list, `append(res)` for what is not `None`. -/
def MapOutput.toList {κ β : Type} : MapOutput κ β → List (κ × β)
  | .pairs res => res
  | .pair res => [res]
  | .none => []

structure MapReduceMetrics where
  totalInputItems : Nat
  totalIntermediatePairs : Nat
  totalPartitions : Nat
deriving DecidableEq

structure DistributedMapReduce where
  defaultConcurrency : Int
  defaultChunkSize : Int

namespace DistributedMapReduce

variable {α κ β ρ ε : Type}

def chunkIterable (data : List α) (chunkSize : Int) : List (List α) :=
  if data = [] then []
  else if chunkSize ≤ 1 then data.map fun item => [item]
  else chunks chunkSize.toNat data

def mapChunkWrapper (mapFn : α → Except ε (MapOutput κ β)) (elements : List α) :
    Except ε (List (κ × β)) :=
  elements.foldlM (fun pairs el => return pairs ++ (← mapFn el).toList) []

section
variable [BEq κ]

/-- The second phase: the groups, and the number of pairs. -/
def shuffle (mapResults : List (List (κ × β))) : List (κ × List β) × Nat :=
  mapResults.foldl (fun state chunkPairs => chunkPairs.foldl (fun state pair =>
    (alter pair.1 (fun values => values.getD [] ++ [pair.2]) state.1, state.2 + 1)) state) ([], 0)

/-- `execute_map_reduce`, after these turns of the tasks in the two phases; `none` while it waits. -/
def executeMapReduce (m : DistributedMapReduce) (mapFn : α → Except ε (MapOutput κ β))
    (reduceFn : κ → List β → Except ε ρ) (items : List α) (chunkSize concurrency : Option Int)
    (mapTurns reduceTurns : List Turn) : Option (Except ε (List (κ × ρ) × MapReduceMetrics)) :=
  let cSize := orDefault chunkSize m.defaultChunkSize
  let maxConc := (orDefault concurrency m.defaultConcurrency).toNat
  if items = [] then some (.ok ([], ⟨0, 0, 0⟩))
  else
    let chunks := chunkIterable items cSize
    match gather (chunks.map (mapChunkWrapper mapFn))
      (Workers.after maxConc chunks.length mapTurns).finished with
    | none => none
    | some (.error e) => some (.error e)
    | some (.ok mapResults) =>
      let (grouped, totalPairs) := shuffle mapResults
      let metrics : MapReduceMetrics := ⟨items.length, totalPairs, grouped.length⟩
      if grouped = [] then some (.ok ([], metrics))
      else
        match gather (grouped.map fun group => (reduceFn group.1 group.2).map (group.1, ·))
          (Workers.after maxConc grouped.length reduceTurns).finished with
        | none => none
        | some (.error e) => some (.error e)
        | some (.ok reducedPairs) => some (.ok (ofPairs reducedPairs, metrics))

end

/-! ### The reference -/

/-- All pairs, item by item. -/
def emitted (mapFn : α → MapOutput κ β) (items : List α) : List (κ × β) :=
  items.flatMap fun item => (mapFn item).toList

/-- Each key that was emitted, with what `reduce_fn` makes of all its values. -/
def reference [BEq κ] (mapFn : α → MapOutput κ β) (reduceFn : κ → List β → ρ) (items : List α) :
    List (κ × ρ) :=
  (distinctKeys ((emitted mapFn items).map Prod.fst)).map fun k =>
    (k, reduceFn k (valuesOf k (emitted mapFn items)))

/-! ### The phases -/

theorem flatten_chunkIterable (data : List α) (chunkSize : Int) : (chunkIterable data chunkSize).flatten = data := by
  rw [chunkIterable]
  split_ifs with hempty hone
  · exact hempty.symm
  · exact List.flatMap_singleton' data
  · exact flatten_chunks (by omega) data

variable (mapFn : α → MapOutput κ β)

theorem emitted_flatten (chunks : List (List α)) :
    emitted mapFn chunks.flatten = (chunks.map (emitted mapFn)).flatten := by
  induction chunks with
  | nil => rfl
  | cons chunk chunks ih => rw [List.map_cons, List.flatten_cons, List.flatten_cons, ← ih, emitted,
      List.flatMap_append, emitted, emitted]

theorem mapChunkWrapper_ok (elements : List α) :
    mapChunkWrapper (fun el => (.ok (mapFn el) : Except ε (MapOutput κ β))) elements =
      .ok (emitted mapFn elements) := by
  have hfrom : ∀ pairs : List (κ × β), elements.foldlM
      (fun pairs el => return pairs ++ (← (.ok (mapFn el) : Except ε (MapOutput κ β))).toList) pairs =
        (.ok (pairs ++ emitted mapFn elements) : Except ε _) := by
    induction elements with
    | nil => exact fun pairs => congrArg Except.ok (List.append_nil _).symm
    | cons el elements ih =>
      intro pairs
      have hemitted : emitted mapFn (el :: elements) = (mapFn el).toList ++ emitted mapFn elements := rfl
      rw [hemitted, ← List.append_assoc]
      exact ih _
  exact hfrom []

theorem shuffle_eq [BEq κ] (mapResults : List (List (κ × β))) :
    shuffle mapResults = (groupPairs mapResults.flatten, mapResults.flatten.length) := by
  have hfrom : ∀ (pairs : List (κ × β)) (d : List (κ × List β)) (n : Nat), pairs.foldl (fun state pair =>
      (alter pair.1 (fun values => values.getD [] ++ [pair.2]) state.1, state.2 + 1)) (d, n) =
        (pairs.foldl (fun d pair => alter pair.1 (fun values => values.getD [] ++ [pair.2]) d) d,
          n + pairs.length) := by
    intro pairs
    induction pairs with
    | nil => exact fun d n => rfl
    | cons pair pairs ih =>
      intro d n
      rw [List.foldl_cons, ih, List.foldl_cons, List.length_cons, Nat.add_assoc, Nat.add_comm 1]
  rw [shuffle, ← List.foldl_flatten, hfrom, Nat.zero_add]
  rfl

variable (reduceFn : κ → List β → ρ)

theorem length_reference [BEq κ] (items : List α) :
    (reference mapFn reduceFn items).length = (distinctKeys ((emitted mapFn items).map Prod.fst)).length :=
  List.length_map _

theorem gather_mapped (chunks : List (List α)) {finished : List Nat}
    (hfinished : finished.Perm (List.range chunks.length)) :
    gather (chunks.map (mapChunkWrapper fun item => (.ok (mapFn item) : Except ε (MapOutput κ β)))) finished =
      some (.ok (chunks.map (emitted mapFn))) := by
  rw [List.map_congr_left fun chunk _ => mapChunkWrapper_ok mapFn chunk]
  exact gather_ok _ _ hfinished

theorem gather_reduced [BEq κ] [EquivBEq κ] (items : List α) {finished : List Nat}
    (hfinished : finished.Perm (List.range (reference mapFn reduceFn items).length)) :
    gather (((distinctKeys ((emitted mapFn items).map Prod.fst)).map fun k =>
        (k, valuesOf k (emitted mapFn items))).map fun group =>
          ((.ok (reduceFn group.1 group.2) : Except ε ρ).map (group.1, ·))) finished =
      some (.ok (reference mapFn reduceFn items)) := by
  rw [List.map_map]
  refine gather_ok (fun k => (k, reduceFn k (valuesOf k (emitted mapFn items)))) _ ?_
  rwa [← length_reference mapFn reduceFn]

/-- **MapReduce is its sequential reference**, whatever the chunks, the limit and the order in which the
tasks start and finish; and every schedule can be continued until both phases are done. -/
theorem executeMapReduce_eq_reference [BEq κ] [EquivBEq κ] (m : DistributedMapReduce)
    (mapFn : α → MapOutput κ β) (reduceFn : κ → List β → ρ) (items : List α)
    (chunkSize concurrency : Option Int) (hlimit : 1 ≤ orDefault concurrency m.defaultConcurrency) :
    let limit := (orDefault concurrency m.defaultConcurrency).toNat
    let tasks := (chunkIterable items (orDefault chunkSize m.defaultChunkSize)).length
    let keys := (reference mapFn reduceFn items).length
    (∀ mapTurns reduceTurns : List Turn, (Workers.after limit tasks mapTurns).Settled limit →
      (Workers.after limit keys reduceTurns).Settled limit →
      m.executeMapReduce (fun item => (.ok (mapFn item) : Except ε (MapOutput κ β)))
        (fun k values => .ok (reduceFn k values)) items chunkSize concurrency mapTurns reduceTurns =
          some (.ok (reference mapFn reduceFn items,
            ⟨items.length, (emitted mapFn items).length, keys⟩))) ∧
    ∀ (n : Nat) (turns : List Turn), ∃ more, (Workers.after limit n (turns ++ more)).Settled limit := by
  intro limit tasks keys
  have hkeys : keys = (reference mapFn reduceFn items).length := rfl
  have hpos : 0 < limit := by
    change 0 < Int.toNat _
    omega
  refine ⟨fun mapTurns reduceTurns hmap hreduce => ?_, Workers.exists_settled hpos⟩
  have hmapped := gather_mapped (ε := ε) mapFn _ (hmap.finished_perm hpos)
  have hflatten : ((chunkIterable items (orDefault chunkSize m.defaultChunkSize)).map
      (emitted mapFn)).flatten = emitted mapFn items := by
    rw [← emitted_flatten, flatten_chunkIterable]
  rw [executeMapReduce]
  dsimp only
  split_ifs with hempty
  · subst hempty
    rfl
  · rw [hmapped]
    dsimp only
    rw [shuffle_eq, hflatten, Lib.groupPairs_eq]
    dsimp only
    rw [List.length_map, ← length_reference mapFn reduceFn]
    split_ifs with hnone
    · have hreference : reference mapFn reduceFn items = [] := by
        rw [reference, List.map_eq_nil_iff.mp hnone, List.map_nil]
      rw [hkeys, hreference]
    · rw [← hkeys, gather_reduced mapFn reduceFn items (hreduce.finished_perm hpos)]
      dsimp only
      rw [Lib.ofPairs_eq_self]
      rw [reference, List.pairwise_map]
      exact Lib.pairwise_distinctKeys _

/-- Words are counted, in chunks of two and one task at a time that starts last, first and in the middle. -/
theorem executeMapReduce_words :
    let m : DistributedMapReduce := ⟨8, 1⟩
    let mapFn (word : String) : MapOutput String Nat := if word = "" then .none else .pair (word, 1)
    let turns (order : List Nat) : List Turn := order.flatMap fun i => [.start i, .finish i]
    m.executeMapReduce (fun word => (.ok (mapFn word) : Except Unit _)) (fun _ values => .ok values.sum)
        ["b", "a", "", "b", "c"] (some 2) (some 1) (turns [2, 0, 1]) (turns [1, 2, 0]) =
      some (.ok ([("b", 2), ("a", 1), ("c", 1)], ⟨5, 4, 3⟩)) := by
  intro m mapFn turns
  have hreturns := (executeMapReduce_eq_reference (ε := Unit) m mapFn (fun _ values => values.sum)
    ["b", "a", "", "b", "c"] (some 2) (some 1) (by decide)).1 (turns [2, 0, 1]) (turns [1, 2, 0])
    (Workers.settled_of_empty (by decide +kernel) (by decide +kernel))
    (Workers.settled_of_empty (by decide +kernel) (by decide +kernel))
  rw [hreturns]
  decide +kernel

end DistributedMapReduce

end MeshWeaver
