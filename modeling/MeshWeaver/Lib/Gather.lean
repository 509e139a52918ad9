import Mathlib.Data.List.Perm.Basic
import MeshWeaver.Lib.Run

/-!
# Tasks under a limit

Tasks wait for a permit, run and finish, at most `limit` of them at a time. Which one starts and which one
finishes next is up to the schedule, a list of turns; a turn that is not possible changes nothing. `gather`
returns the results in the order of the tasks, whatever the order they finished in, or the exception that
was raised first; `gatherAll` returns the exceptions among the results.
-/

namespace MeshWeaver.Lib

open scoped List

structure Workers where
  waiting : List Nat
  running : List Nat
  finished : List Nat

inductive Turn where
  | start (i : Nat)
  | finish (i : Nat)

namespace Workers

def new (n : Nat) : Workers := ⟨List.range n, [], []⟩

variable (limit : Nat)

def turn (w : Workers) : Turn → Workers
  | .start i =>
    if i ∈ w.waiting ∧ w.running.length < limit then
      { w with waiting := w.waiting.erase i, running := w.running ++ [i] }
    else w
  | .finish i =>
    if i ∈ w.running then { w with running := w.running.erase i, finished := w.finished ++ [i] } else w

def after (n : Nat) (turns : List Turn) : Workers := run (turn limit) (new n) turns

def Settled (w : Workers) : Prop := ∀ t, w.turn limit t = w

variable {limit} {w : Workers}

theorem turn_perm (t : Turn) : ((w.turn limit t).waiting ++ (w.turn limit t).running ++
    (w.turn limit t).finished).Perm (w.waiting ++ w.running ++ w.finished) := by
  cases t with
  | start i =>
    rw [turn]
    split_ifs with h
    · refine List.Perm.append_right _ ?_
      calc w.waiting.erase i ++ (w.running ++ [i])
          _ ~ w.waiting.erase i ++ i :: w.running := (List.perm_append_singleton _ _).append_left _
          _ ~ i :: (w.waiting.erase i ++ w.running) := List.perm_middle
          _ ~ w.waiting ++ w.running := (List.perm_cons_erase h.1).symm.append_right _
    · exact List.Perm.refl _
  | finish i =>
    rw [turn]
    split_ifs with h
    · rw [List.append_assoc, List.append_assoc]
      refine List.Perm.append_left _ ?_
      calc w.running.erase i ++ (w.finished ++ [i])
          _ ~ w.running.erase i ++ i :: w.finished := (List.perm_append_singleton _ _).append_left _
          _ ~ i :: (w.running.erase i ++ w.finished) := List.perm_middle
          _ ~ w.running ++ w.finished := (List.perm_cons_erase h).symm.append_right _
    · exact List.Perm.refl _

theorem after_perm (limit n : Nat) (turns : List Turn) : ((after limit n turns).waiting ++
    (after limit n turns).running ++ (after limit n turns).finished).Perm (List.range n) := by
  refine run_invariant (I := fun w : Workers => (w.waiting ++ w.running ++ w.finished).Perm (List.range n))
    (fun w t h => (turn_perm t).trans h) ?_ turns
  simp [new]

theorem turn_finish {i : Nat} (h : i ∈ w.running) :
    w.turn limit (.finish i) = { w with running := w.running.erase i, finished := w.finished ++ [i] } :=
  if_pos h

theorem turn_start {i : Nat} (h : i ∈ w.waiting) (hroom : w.running.length < limit) :
    w.turn limit (.start i) = { w with waiting := w.waiting.erase i, running := w.running ++ [i] } :=
  if_pos ⟨h, hroom⟩

theorem settled_of_empty (hwaiting : w.waiting = []) (hrunning : w.running = []) : w.Settled limit := by
  intro t
  cases t with
  | start i => simp [turn, hwaiting]
  | finish i => simp [turn, hrunning]

theorem Settled.empty (h : w.Settled limit) (hlimit : 0 < limit) : w.waiting = [] ∧ w.running = [] := by
  have hrunning : w.running = [] := by
    refine List.eq_nil_iff_forall_not_mem.mpr fun i hi => ?_
    have hsame := congrArg (List.length ∘ finished) (h (.finish i))
    simp [turn_finish hi] at hsame
  refine ⟨List.eq_nil_iff_forall_not_mem.mpr fun i hi => ?_, hrunning⟩
  have hroom : w.running.length < limit := by rwa [hrunning]
  have hsame := congrArg (List.length ∘ running) (h (.start i))
  simp [turn_start hi hroom] at hsame

/-- **All tasks finish.** -/
theorem Settled.finished_perm {n : Nat} {turns : List Turn} (h : (after limit n turns).Settled limit)
    (hlimit : 0 < limit) : (after limit n turns).finished.Perm (List.range n) := by
  have hperm := after_perm limit n turns
  obtain ⟨hwaiting, hrunning⟩ := h.empty hlimit
  rwa [hwaiting, hrunning] at hperm

/-- **Every schedule can be continued until nothing more happens.** -/
theorem exists_settled (hlimit : 0 < limit) (n : Nat) (turns : List Turn) :
    ∃ more, (after limit n (turns ++ more)).Settled limit := by
  have hsettles : ∀ w : Workers, ∃ more, (run (turn limit) w more).Settled limit := by
    intro w
    induction hsize : 2 * w.waiting.length + w.running.length using Nat.strongRecOn generalizing w with
    | _ size ih =>
      -- a running task finishes, and if there is none a waiting one starts
      cases hrunning : w.running with
      | cons i rest =>
        have hi : i ∈ w.running := by simp [hrunning]
        have hlength := List.length_erase_of_mem hi
        have hpos := List.length_pos_of_mem hi
        obtain ⟨more, hmore⟩ := ih _ (by
          dsimp only
          omega)
          { w with running := w.running.erase i, finished := w.finished ++ [i] } rfl
        exact ⟨.finish i :: more, by rwa [run_cons, turn_finish hi]⟩
      | nil =>
        cases hwaiting : w.waiting with
        | cons i rest =>
          have hi : i ∈ w.waiting := by simp [hwaiting]
          have hroom : w.running.length < limit := by rwa [hrunning]
          have hlength := List.length_erase_of_mem hi
          have hpos := List.length_pos_of_mem hi
          obtain ⟨more, hmore⟩ := ih _ (by
            dsimp only
            rw [List.length_append, List.length_singleton]
            omega)
            { w with waiting := w.waiting.erase i, running := w.running ++ [i] } rfl
          exact ⟨.start i :: more, by rwa [run_cons, turn_start hi hroom]⟩
        | nil => exact ⟨[], settled_of_empty hwaiting hrunning⟩
  obtain ⟨more, hmore⟩ := hsettles (after limit n turns)
  exact ⟨more, by rwa [after, run_append]⟩

end Workers

/-! ### The results -/

variable {α β ε : Type}

def failure? : Except ε β → Option ε
  | .error e => some e
  | .ok _ => none

/-- `asyncio.gather(*tasks)` for tasks with these outcomes, when some of them have finished: `none` while it
waits. -/
def gather (outcomes : List (Except ε β)) (finished : List Nat) : Option (Except ε (List β)) :=
  match finished.findSome? fun i => outcomes[i]?.bind failure? with
  | some e => some (.error e)
  | none => if finished.length = outcomes.length then some (outcomes.mapM id) else none

/-- `asyncio.gather(*tasks, return_exceptions=True)` -/
def gatherAll (outcomes : List (Except ε β)) (finished : List Nat) : Option (List (Except ε β)) :=
  if finished.length = outcomes.length then some outcomes else none

/-- `given or default` -/
def orDefault (given : Option Int) (default : Int) : Int :=
  match given with
  | some n => if n = 0 then default else n
  | none => default

theorem mapM_map_ok (f : α → β) (xs : List α) :
    (xs.map fun x => (.ok (f x) : Except ε β)).mapM id = .ok (xs.map f) := by
  induction xs with
  | nil => rfl
  | cons x xs ih =>
    rw [List.map_cons, List.mapM_cons, ih]
    rfl

/-- **The order in which tasks finish does not matter** if none of them fails. -/
theorem gather_ok (f : α → β) (xs : List α) {finished : List Nat} (h : finished.Perm (List.range xs.length)) :
    gather (xs.map fun x => (.ok (f x) : Except ε β)) finished = some (.ok (xs.map f)) := by
  have hnone : (finished.findSome? fun i =>
      (xs.map fun x => (.ok (f x) : Except ε β))[i]?.bind failure?) = none := by
    rw [List.findSome?_eq_none_iff]
    intro i _
    rw [List.getElem?_map]
    cases xs[i]? with
    | none | some x => rfl
  have hlength : finished.length = (xs.map fun x => (.ok (f x) : Except ε β)).length := by
    rw [h.length_eq, List.length_range, List.length_map]
  rw [gather, hnone]
  rw [if_pos hlength, mapM_map_ok]

theorem filterMap_getElem?_range (xs : List α) : ((List.range xs.length).filterMap fun i => xs[i]?) = xs := by
  induction xs with
  | nil => rfl
  | cons x xs ih =>
    have hfirst : (x :: xs)[0]? = some x := rfl
    rw [List.length_cons, List.range_succ_eq_map, List.filterMap_cons_some hfirst, List.filterMap_map]
    exact congrArg (x :: ·) ih

theorem finished_tasks_perm (xs : List α) {finished : List Nat} (h : finished.Perm (List.range xs.length)) :
    (finished.filterMap fun i => xs[i]?).Perm xs := by
  have hperm := h.filterMap fun i => xs[i]?
  rwa [filterMap_getElem?_range] at hperm

end MeshWeaver.Lib
