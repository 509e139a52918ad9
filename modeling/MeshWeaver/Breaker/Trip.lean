import MeshWeaver.Breaker.Circuit
import MeshWeaver.Lib.FlooredSum
import MeshWeaver.Lib.Run

/-!
# When a breaker trips

While a breaker is CLOSED, a failure adds one to its count and a success takes one away, down to zero. So the
count is the greatest excess of failures over successes among the last outcomes, and the breaker trips at the
first outcome that ends a window with an excess of `failure_threshold`.
-/

namespace MeshWeaver

open Lib

namespace CircuitBreaker

abbrev Recording := Outcome × (Nat → Rat)

def after (b : CircuitBreaker) (recordings : List Recording) : CircuitBreaker :=
  run (fun b recording => b.record recording.1 recording.2) b recordings

theorem after_concat (b : CircuitBreaker) (recordings : List Recording) (recording : Recording) :
    b.after (recordings ++ [recording]) = (b.after recordings).record recording.1 recording.2 :=
  run_append ..

def excess (recordings : List Recording) : Int :=
  recordings.countP (fun recording => recording.1 = .failure) -
    recordings.countP fun recording => recording.1 = .success

def window (recordings : List Recording) (i m : Nat) : List Recording := (recordings.take m).drop i

def weight (recording : Recording) : Int := if recording.1 = .failure then 1 else -1

variable (recordings : List Recording) {m : Nat} {b : CircuitBreaker}

theorem sum_weight : (recordings.map weight).sum = excess recordings := by
  induction recordings with
  | nil => rfl
  | cons recording recordings ih =>
    obtain ⟨outcome, clock⟩ := recording
    rw [List.map_cons, List.sum_cons, ih, excess, excess, List.countP_cons, List.countP_cons]
    cases outcome <;> simp [weight] <;> omega

/-- The count of a breaker that has been CLOSED all the time. -/
def count (recordings : List Recording) : Int := flooredSum (recordings.map weight)

theorem count_concat (recording : Recording) :
    count (recordings ++ [recording]) = max 0 (count recordings + weight recording) := by
  rw [count, List.map_append, List.map_singleton, flooredSum_concat, ← count]

theorem isGreatest_count (hm : m ≤ recordings.length) :
    IsGreatest {x | ∃ i ≤ m, x = excess (window recordings i m)} (count (recordings.take m)) := by
  have hgreatest := isGreatest_flooredSum ((recordings.take m).map weight)
  simp only [← List.map_drop, sum_weight, List.length_map, List.length_take, min_eq_left hm] at hgreatest
  exact hgreatest

/-- **One outcome** of a CLOSED breaker: it trips exactly if the new count reaches the threshold. -/
theorem record_closed (h : b.stored = .closed) {recordings : List Recording}
    (hcount : (b.failureCount : Int) = count recordings) (hbelow : count recordings < b.config.failureThreshold)
    (recording : Recording) :
    let next := b.record recording.1 recording.2
    next.config = b.config ∧
      (count (recordings ++ [recording]) < b.config.failureThreshold →
        next.stored = .closed ∧ (next.failureCount : Int) = count (recordings ++ [recording])) ∧
      (b.config.failureThreshold ≤ count (recordings ++ [recording]) → next.stored ≠ .closed) := by
  obtain ⟨outcome, clock⟩ := recording
  have hread : b.evaluated (clock 0) (clock 1) = b := if_neg (not_due_of_ne (by rw [h]; decide) _)
  rw [count_concat, ← hcount]
  rw [record_eq, hread]
  cases outcome with
  | success =>
    have hweight : weight (.success, clock) = -1 := rfl
    rw [note, noteSuccess, h]
    refine ⟨rfl, fun _ => ⟨rfl, ?_⟩, fun hreach => ?_⟩
    · dsimp only
      omega
    · omega
  | failure =>
    have hweight : weight (.failure, clock) = 1 := rfl
    rw [note, noteFailure, h]
    dsimp only
    split_ifs with hreach
    · exact ⟨rfl, fun hlt => by omega, fun _ => by simp [transitionTo]⟩
    · exact ⟨rfl, fun _ => ⟨rfl, by dsimp only; omega⟩, fun hge => by omega⟩

section
variable {config : CircuitBreakerConfig} {nodeIdHex : String} {start : Rat} {recordings : List Recording}

/-- **As long as the count stays below the threshold** the breaker is CLOSED and has this count. -/
theorem after_below (h : ∀ m ≤ recordings.length, count (recordings.take m) < config.failureThreshold) :
    let b := (new nodeIdHex config start).after recordings
    b.config = config ∧ b.stored = .closed ∧ (b.failureCount : Int) = count recordings := by
  induction recordings using List.reverseRecOn with
  | nil => exact ⟨rfl, rfl, rfl⟩
  | append_singleton recordings recording ih =>
    have hbefore : ∀ m ≤ recordings.length, count (recordings.take m) < config.failureThreshold := by
      intro m hm
      have hlt := h m (by rw [List.length_append]; omega)
      rwa [List.take_append_of_le_length hm] at hlt
    obtain ⟨hconfig, hclosed, hcount⟩ := ih hbefore
    have hlast := h _ le_rfl
    have hbelow := hbefore _ le_rfl
    rw [List.take_length] at hlast hbelow
    generalize hb : (new nodeIdHex config start).after recordings = b at hconfig hclosed hcount
    subst hconfig
    have hstep := record_closed hclosed hcount hbelow recording
    rw [after_concat, hb]
    exact ⟨hstep.1, hstep.2.1 hlast⟩

theorem after_take_below (nodeIdHex : String) (start : Rat)
    (h : ∀ j ≤ m, count (recordings.take j) < config.failureThreshold) :
    let b := (new nodeIdHex config start).after (recordings.take m)
    b.config = config ∧ b.stored = .closed ∧ (b.failureCount : Int) = count (recordings.take m) := by
  refine after_below fun j hj => ?_
  rw [List.take_take]
  exact h _ (min_le_right _ _)

theorem after_take_reaches (hm : m < recordings.length)
    (h : ∀ j ≤ m, count (recordings.take j) < config.failureThreshold)
    (hreach : config.failureThreshold ≤ count (recordings.take (m + 1))) :
    ((new nodeIdHex config start).after (recordings.take (m + 1))).stored ≠ .closed := by
  obtain ⟨hconfig, hclosed, hcount⟩ := after_take_below nodeIdHex start h
  have hbelow := h m le_rfl
  have htake : recordings.take (m + 1) = recordings.take m ++ [recordings[m]] := List.take_succ_eq_append_getElem hm
  rw [htake] at hreach ⊢
  generalize hb : (new nodeIdHex config start).after (recordings.take m) = b at hconfig hclosed hcount
  subst hconfig
  rw [after_concat, hb]
  exact (record_closed hclosed hcount hbelow recordings[m]).2.2 hreach

theorem below_of_closed (hn : 1 ≤ config.failureThreshold) (hm : m ≤ recordings.length)
    (h : ∀ j ≤ m, ((new nodeIdHex config start).after (recordings.take j)).stored = .closed) :
    ∀ j ≤ m, count (recordings.take j) < config.failureThreshold := by
  induction m with
  | zero =>
    intro j hj
    cases Nat.le_zero.mp hj
    have hzero : count (recordings.take 0) = 0 := rfl
    omega
  | succ m ih =>
    have hbefore := ih (by omega) fun j hj => h j (by omega)
    intro j hj
    rcases Nat.lt_or_ge m j with hlast | hold
    · cases (by omega : j = m + 1)
      by_contra hreach
      exact after_take_reaches hm hbefore (not_lt.mp hreach) (h (m + 1) le_rfl)
    · exact hbefore j hold

theorem count_lt_iff {n : Int} (hm : m ≤ recordings.length) :
    count (recordings.take m) < n ↔ ∀ i ≤ m, excess (window recordings i m) < n := by
  obtain ⟨⟨i, hi, hcount⟩, hupper⟩ := isGreatest_count recordings hm
  exact ⟨fun hlt i hi => (hupper ⟨i, hi, rfl⟩).trans_lt hlt, fun hall => hcount ▸ hall i hi⟩

/-- **When a breaker trips.** A fresh breaker leaves CLOSED with the first outcome that ends a window in which
there are `failure_threshold` more failures than successes, and before that its count is the greatest excess
of failures in a window that ends with the last outcome. -/
theorem leaves_closed_iff (nodeIdHex : String) {config : CircuitBreakerConfig}
    (hn : 1 ≤ config.failureThreshold) (start : Rat) (recordings : List Recording) {m : Nat}
    (hm : m ≤ recordings.length) :
    let b (j : Nat) := (new nodeIdHex config start).after (recordings.take j)
    (((∀ j < m, (b j).stored = .closed) ∧ (b m).stored ≠ .closed) ↔
      (∀ j < m, ∀ i ≤ j, excess (window recordings i j) < config.failureThreshold) ∧
        ∃ i ≤ m, config.failureThreshold ≤ excess (window recordings i m)) ∧
    ((∀ j ≤ m, (b j).stored = .closed) →
      IsGreatest {x | ∃ i ≤ m, x = excess (window recordings i m)} ((b m).failureCount : Int)) := by
  intro b
  constructor
  · cases m with
    | zero =>
      refine iff_of_false (fun h => h.2 rfl) ?_
      rintro ⟨-, i, hi, hexcess⟩
      cases Nat.le_zero.mp hi
      change (config.failureThreshold : Int) ≤ 0 at hexcess
      omega
    | succ m =>
      have hbelow : (∀ j < m + 1, (b j).stored = .closed) ↔
          ∀ j < m + 1, ∀ i ≤ j, excess (window recordings i j) < config.failureThreshold := by
        simp only [Nat.lt_succ_iff]
        constructor
        · intro hclosed j hj
          exact (count_lt_iff (by omega)).mp (below_of_closed hn (by omega) hclosed j hj)
        · intro hall j hj
          refine (after_take_below nodeIdHex start fun i hi => (count_lt_iff (by omega)).mpr (hall i (by omega))).2.1
      rw [hbelow]
      refine and_congr_right fun hall => ?_
      have hcounts : ∀ j ≤ m, count (recordings.take j) < config.failureThreshold := fun j hj =>
        (count_lt_iff (by omega)).mpr (hall j (by omega))
      have hreach : (∃ i ≤ m + 1, config.failureThreshold ≤ excess (window recordings i (m + 1))) ↔
          config.failureThreshold ≤ count (recordings.take (m + 1)) := by
        rw [← not_lt, count_lt_iff hm]
        push Not
        rfl
      rw [hreach]
      refine ⟨fun hleft => ?_, after_take_reaches hm hcounts⟩
      by_contra hlt
      refine hleft (after_take_below nodeIdHex start fun j hj => ?_).2.1
      rcases Nat.lt_or_ge m j with hlast | hold
      · cases (by omega : j = m + 1)
        exact not_le.mp hlt
      · exact hcounts j hold
  · intro hclosed
    obtain ⟨-, -, hcount⟩ := after_take_below nodeIdHex start
      (below_of_closed hn hm hclosed)
    rw [hcount]
    exact isGreatest_count recordings hm

/-- Two failures, a success between them, and one more: the count is two only after the last one. -/
theorem leaves_closed_after_four :
    let config : CircuitBreakerConfig := { failureThreshold := 2 }
    let recordings : List Recording := [.failure, .success, .failure, .failure].map fun outcome => (outcome, fun _ => 0)
    (∀ j < 4, ((new "w" config 0).after (recordings.take j)).stored = .closed) ∧
      ((new "w" config 0).after (recordings.take 4)).stored ≠ .closed := by
  intro config recordings
  refine (leaves_closed_iff "w" (by decide) 0 recordings (by decide)).1.mpr ⟨?_, 2, by decide, by decide⟩
  decide

end

end CircuitBreaker

end MeshWeaver
