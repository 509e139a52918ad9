import MeshWeaver.Lib.Merge
import MeshWeaver.Raft.Log

/-!
# What the log operations do to a contiguous log

A log is `Contiguous` when its `k`-th stored entry has index `snapshotLastIndex + 1 + k`. On such a log `getEntry` is
list access, `lastIndex` is the length of the history, and `reconcileFollowerEntries` with consecutive entries is a
merge along the terms (`reconcileLoop_eq_merge`).
-/

namespace MeshWeaver

open Lib

/-- The entries carry the indexes `start`, `start + 1`, .... -/
def ContiguousFrom (start : Int) (es : List LogEntry) : Prop :=
  ∀ (k : Nat) (e : LogEntry), es[k]? = some e → e.index = start + k

namespace ContiguousFrom

variable {start : Int} {es fs : List LogEntry} {e : LogEntry}

theorem nil : ContiguousFrom start [] := by
  intro k e h
  simp at h

theorem head (h : ContiguousFrom start (e :: es)) : e.index = start := by
  simpa using h 0 e rfl

theorem tail (h : ContiguousFrom start (e :: es)) : ContiguousFrom (start + 1) es := by
  intro k x hx
  have := h (k + 1) x (by simpa using hx)
  omega

theorem cons_iff : ContiguousFrom start (e :: es) ↔ e.index = start ∧ ContiguousFrom (start + 1) es := by
  refine ⟨fun h => ⟨h.head, h.tail⟩, fun ⟨hhead, htail⟩ k x hk => ?_⟩
  cases k with
  | zero => simp at hk; simp [← hk, hhead]
  | succ k =>
    have := htail k x (by simpa using hk)
    omega

theorem take (h : ContiguousFrom start es) (n : Nat) : ContiguousFrom start (es.take n) := by
  intro k e hk
  rw [List.getElem?_take] at hk
  split_ifs at hk
  exact h k e hk

theorem drop (h : ContiguousFrom start es) (n : Nat) : ContiguousFrom (start + n) (es.drop n) := by
  intro k e hk
  rw [List.getElem?_drop] at hk
  have := h (n + k) e hk
  omega

theorem append (hes : ContiguousFrom start es) (hfs : ContiguousFrom (start + es.length) fs) :
    ContiguousFrom start (es ++ fs) := by
  intro k e hk
  rcases Nat.lt_or_ge k es.length with hlt | hge
  · rw [List.getElem?_append_left hlt] at hk
    exact hes k e hk
  · rw [List.getElem?_append_right hge] at hk
    have := hfs (k - es.length) e hk
    omega

theorem singleton (h : e.index = start) : ContiguousFrom start [e] :=
  cons_iff.mpr ⟨h, nil⟩

theorem of_isPrefix (h : ContiguousFrom start fs) (hp : es <+: fs) : ContiguousFrom start es := by
  rw [List.prefix_iff_eq_take.mp hp]
  exact h.take _

theorem filter_gt (h : ContiguousFrom start es) (n : Nat) :
    es.filter (fun e => e.index > start + n - 1) = es.drop n := by
  induction es generalizing start n with
  | nil => simp
  | cons e es ih =>
    cases n with
    | zero =>
      rw [List.drop_zero, List.filter_eq_self]
      intro x hx
      obtain ⟨k, hk⟩ := List.mem_iff_getElem?.mp hx
      have := h k x hk
      simp only [gt_iff_lt, decide_eq_true_eq]
      omega
    | succ n =>
      have hrest := ih h.tail n
      rw [List.filter_cons_of_neg (by rw [decide_eq_true_eq, h.head]; omega), List.drop_succ_cons,
        ← hrest]
      congr 1
      funext x
      congr 2
      omega

theorem filter_lt (h : ContiguousFrom start es) (n : Nat) : es.filter (fun e => e.index < start + n) = es.take n := by
  induction es generalizing start n with
  | nil => simp
  | cons e es ih =>
    cases n with
    | zero =>
      rw [List.take_zero, List.filter_eq_nil_iff]
      intro x hx
      obtain ⟨k, hk⟩ := List.mem_iff_getElem?.mp hx
      have := h k x hk
      simp only [decide_eq_true_eq]
      omega
    | succ n =>
      rw [List.filter_cons_of_pos (by rw [decide_eq_true_eq, h.head]; omega), List.take_succ_cons,
        ← ih h.tail n]
      push_cast
      rw [add_right_comm, add_assoc]

theorem mergeBy (hes : ContiguousFrom start es) (hfs : ContiguousFrom start fs) :
    ContiguousFrom start (mergeBy LogEntry.term es fs) := by
  induction es generalizing start fs with
  | nil => rwa [mergeBy_nil_left]
  | cons a es ih =>
    cases fs with
    | nil => rwa [mergeBy_nil_right]
    | cons b fs =>
      by_cases hterm : a.term = b.term
      · rw [mergeBy_cons_of_eq _ hterm, ← List.singleton_append]
        exact (singleton hes.head).append (by simpa using ih hes.tail hfs.tail)
      · rwa [mergeBy_cons_of_ne _ hterm]

end ContiguousFrom

namespace RaftLog

variable {log : RaftLog} {new : List LogEntry} {p : Nat}

/-- The `k`-th stored entry has index `snapshotLastIndex + 1 + k`. -/
def Contiguous (log : RaftLog) : Prop := ContiguousFrom (log.snapshotLastIndex + 1) log.entries

theorem contiguous_empty : empty.Contiguous := ContiguousFrom.nil

theorem lastIndex_eq (h : log.Contiguous) : log.lastIndex = log.snapshotLastIndex + log.entries.length := by
  unfold lastIndex
  rcases List.eq_nil_or_concat log.entries with hnil | ⟨init, last, hlast⟩
  · simp [hnil]
  · have hidx := h init.length last (by simp [hlast])
    simp only [hlast, List.concat_eq_append, List.getLast?_append, List.getLast?_singleton,
      Option.some_or, List.length_append, List.length_singleton]
    omega

theorem getEntry_eq (log : RaftLog) (i : Int) :
    log.getEntry i =
      if i ≤ log.snapshotLastIndex then none else log.entries[(i - log.snapshotLastIndex - 1).toNat]? := by
  unfold getEntry
  by_cases hle : i ≤ log.snapshotLastIndex
  · rw [if_pos hle, if_pos hle]
  · dsimp only
    split_ifs with hb
    · rfl
    · symm
      rw [List.getElem?_eq_none_iff]
      omega

theorem getEntry_of_le {i : Int} (h : i ≤ log.snapshotLastIndex) : log.getEntry i = none := by
  rw [getEntry_eq, if_pos h]

theorem getEntry_add (log : RaftLog) (k : Nat) : log.getEntry (log.snapshotLastIndex + 1 + k) = log.entries[k]? := by
  rw [getEntry_eq, if_neg (by omega)]
  congr 1
  omega

theorem getEntry_index (h : log.Contiguous) {i : Int} {e : LogEntry}
    (he : log.getEntry i = some e) : e.index = i := by
  rw [getEntry_eq] at he
  split_ifs at he with hle
  have := h _ e he
  omega

theorem exists_offset {i : Int} (h : log.snapshotLastIndex < i) : ∃ k : Nat, i = log.snapshotLastIndex + 1 + k :=
  ⟨(i - log.snapshotLastIndex - 1).toNat, by omega⟩

theorem advanceCommitIndex_eq (log : RaftLog) (i : Int) :
    log.advanceCommitIndex i = { log with commitIndex := max log.commitIndex (min i log.lastIndex) } := by
  unfold advanceCommitIndex
  dsimp only
  split_ifs with hlt
  · rw [max_eq_right (by omega)]
  · rw [max_eq_left (by omega)]

theorem filterMap_range_getElem? {α : Type} (l : List α) (n : Nat) :
    (List.range n).filterMap (fun k => l[k]?) = l.take n := by
  induction n with
  | zero => rfl
  | succ n ih =>
    rw [List.range_succ, List.filterMap_append, ih, List.take_add_one]
    cases h : l[n]? <;> simp [h]

theorem getUnappliedEntries_eq (hsnap : log.snapshotLastIndex ≤ log.lastApplied)
    (hle : log.lastApplied ≤ log.commitIndex) :
    log.getUnappliedEntries =
      (log.entries.take (log.commitIndex - log.snapshotLastIndex).toNat).drop
        (log.lastApplied - log.snapshotLastIndex).toNat := by
  unfold getUnappliedEntries
  split_ifs with hdone
  · rw [eq_comm, List.drop_eq_nil_iff, List.length_take]
    omega
  · have hget : (fun k : Nat => log.getEntry (log.lastApplied + 1 + k)) =
        fun k : Nat => (log.entries.drop (log.lastApplied - log.snapshotLastIndex).toNat)[k]? := by
      funext k
      rw [getEntry_eq, if_neg (by omega), List.getElem?_drop]
      congr 1
      omega
    rw [intRange, List.filterMap_map, Function.comp_def, hget, filterMap_range_getElem?,
      List.drop_take]
    congr 1
    omega

/-! ### Appending and truncating -/

theorem appendEntry_next {e : LogEntry} (he : e.index = log.lastIndex + 1) :
    log.appendEntry e = .ok ({ log with entries := log.entries ++ [e] }, e.index) := by
  unfold appendEntry
  rw [← he]
  by_cases hpos : e.index ≤ 0
  · rw [if_pos hpos]
    cases e
    rfl
  · rw [if_neg hpos, if_neg (by simp)]

theorem appendEntry_cases (log : RaftLog) (e : LogEntry) :
    (∃ err, log.appendEntry e = .error err) ∨
      ∃ e' : LogEntry, e'.index = log.lastIndex + 1 ∧ (e' = e ∨ e.index ≤ 0) ∧
        log.appendEntry e = .ok ({ log with entries := log.entries ++ [e'] }, log.lastIndex + 1) := by
  by_cases hpos : e.index ≤ 0
  · refine Or.inr ⟨{ e with index := log.lastIndex + 1 }, rfl, Or.inr hpos, ?_⟩
    simp only [appendEntry, if_pos hpos]
  · by_cases hnext : e.index = log.lastIndex + 1
    · exact Or.inr ⟨e, hnext, Or.inl rfl, by rw [appendEntry_next hnext, hnext]⟩
    · left
      simp only [appendEntry, if_neg hpos, ne_eq, hnext, not_false_eq_true, if_true]
      exact ⟨_, rfl⟩

theorem truncateFrom_add (h : log.Contiguous) {k : Nat} (hk : k < log.entries.length) :
    ∃ n, log.truncateFrom (log.snapshotLastIndex + 1 + k) =
      .ok ({ log with
        entries := log.entries.take k
        commitIndex := min log.commitIndex (log.snapshotLastIndex + k) }, n) := by
  refine ⟨log.entries.length - k, ?_⟩
  have hoff : (log.snapshotLastIndex + 1 + (k : Int) - log.snapshotLastIndex - 1).toNat = k := by
    omega
  have hcut : ({ log with entries := log.entries.take k } : RaftLog).Contiguous := h.take k
  have hlast := lastIndex_eq hcut
  simp only [List.length_take, min_eq_left hk.le] at hlast
  unfold truncateFrom
  rw [if_neg (by omega), if_neg (by rw [lastIndex_eq h]; omega)]
  simp only [hoff, hlast]
  congr 2
  · by_cases hc : log.commitIndex > log.snapshotLastIndex + k
    · rw [if_pos hc, min_eq_right hc.le]
    · rw [if_neg hc, min_eq_left (by omega)]
  · omega

/-! ### The reconcile loop -/

theorem reconcileFollowerEntries_fst (log : RaftLog) (prev prevTerm : Int) (new : List LogEntry) :
    (log.reconcileFollowerEntries prev prevTerm new).1 =
      if log.checkConsistency prev prevTerm then (reconcileLoop new log).1 else log := by
  unfold reconcileFollowerEntries
  split_ifs
  · rcases reconcileLoop new log with ⟨log', _ | _⟩ <;> rfl
  · rfl

/-- **The rule for the loop over arbitrary entries**: what appending at the end and cutting at a
conflict preserve, the loop preserves, also when it raises. -/
theorem reconcileLoop_invariant {P : RaftLog → Prop} (hcontiguous : ∀ log, P log → log.Contiguous)
    (happend : ∀ log, ∀ f ∈ new, ∀ e : LogEntry, P log → e.index = log.lastIndex + 1 →
      e = f ∨ f.index ≤ 0 → P { log with entries := log.entries ++ [e] })
    (hcut : ∀ log, ∀ e ∈ new, ∀ (k : Nat) (f : LogEntry), P log →
      e.index = log.snapshotLastIndex + 1 + k → log.entries[k]? = some f → f.term ≠ e.term →
      P { log with entries := log.entries.take k,
                   commitIndex := min log.commitIndex (log.snapshotLastIndex + k) }) :
    ∀ log, P log → P (reconcileLoop new log).1 := by
  induction new with
  | nil => exact fun log h => h
  | cons e rest ih =>
    have ih := ih (fun log f hf => happend log f (List.mem_cons_of_mem _ hf))
      fun log e he => hcut log e (List.mem_cons_of_mem _ he)
    have hnext : ∀ log, P log → (∃ err, log.appendEntry e = .error err) ∨
        ∃ log' i, log.appendEntry e = .ok (log', i) ∧ P log' := by
      intro log h
      rcases appendEntry_cases log e with herr | ⟨e', he', hsame, hok⟩
      · exact Or.inl herr
      · exact Or.inr ⟨_, _, hok, happend log e List.mem_cons_self e' h he' hsame⟩
    intro log h
    rw [reconcileLoop]
    cases hget : log.getEntry e.index with
    | none =>
      rcases hnext log h with ⟨err, herr⟩ | ⟨log', i, hok, h'⟩
      · rwa [herr]
      · rw [hok]
        exact ih log' h'
    | some f =>
      dsimp only
      by_cases hterm : f.term = e.term
      · rw [if_neg (not_not.mpr hterm)]
        exact ih log h
      · rw [if_pos hterm]
        have hsnap : log.snapshotLastIndex < e.index := by
          by_contra hle
          rw [getEntry_of_le (by omega)] at hget
          simp at hget
        obtain ⟨k, hk⟩ := exists_offset hsnap
        rw [hk, getEntry_add] at hget
        obtain ⟨n, htrunc⟩ := truncateFrom_add (hcontiguous log h) (List.getElem?_eq_some_iff.mp hget).1
        have hafter := hcut log e List.mem_cons_self k f h hk hget hterm
        rw [hk, htrunc]
        dsimp only
        rcases hnext _ hafter with ⟨err, herr⟩ | ⟨log', i, hok, h'⟩
        · rwa [herr]
        · rw [hok]
          exact ih log' h'

/-- How many of the first entries carry the same terms in both lists. -/
def agreeing : List LogEntry → List LogEntry → Nat
  | a :: old, b :: new => if a.term = b.term then agreeing old new + 1 else 0
  | _, _ => 0

/-- The commit index after merging `new` into the stored entries from offset `p` on: a conflict
lowers it to the last entry before the conflict. -/
def mergedCommit (log : RaftLog) (p : Nat) (new : List LogEntry) : Int :=
  if Conflicts LogEntry.term (log.entries.drop p) new then
    min log.commitIndex (log.snapshotLastIndex + p + agreeing (log.entries.drop p) new)
  else log.commitIndex

def merged (log : RaftLog) (p : Nat) (new : List LogEntry) : RaftLog :=
  { log with
    entries := log.entries.take p ++ mergeBy LogEntry.term (log.entries.drop p) new
    commitIndex := log.mergedCommit p new }

theorem merged_nil (log : RaftLog) (p : Nat) : log.merged p [] = log := by
  have hno : ¬ Conflicts LogEntry.term (log.entries.drop p) [] := by
    cases log.entries.drop p <;> exact id
  simp [merged, mergedCommit, hno]

theorem merged_eq_self (hno : ¬ Conflicts LogEntry.term (log.entries.drop p) new)
    (hlen : new.length ≤ (log.entries.drop p).length) : log.merged p new = log := by
  rw [merged, mergedCommit, if_neg hno, mergeBy_of_not_conflicts hno hlen,
    List.take_append_drop]

theorem merged_of_length_le (hp : log.entries.length ≤ p) :
    log.merged p new = { log with entries := log.entries ++ new } := by
  have hd : log.entries.drop p = [] := by simpa using hp
  simp [merged, mergedCommit, Conflicts, hd, List.take_of_length_le hp]

theorem merged_cons_of_eq {b : LogEntry} (hlt : p < log.entries.length)
    (hterm : log.entries[p].term = b.term) (new : List LogEntry) :
    log.merged (p + 1) new = log.merged p (b :: new) := by
  have hdrop : log.entries.drop p = log.entries[p] :: log.entries.drop (p + 1) :=
    List.drop_eq_getElem_cons hlt
  have htake : log.entries.take (p + 1) = log.entries.take p ++ [log.entries[p]] :=
    (List.take_append_getElem hlt).symm
  have hcommit : log.mergedCommit (p + 1) new = log.mergedCommit p (b :: new) := by
    simp only [mergedCommit, hdrop, Conflicts, agreeing, hterm, ne_eq, not_true_eq_false, false_or, if_true]
    push_cast
    simp only [add_assoc, add_comm (1 : Int)]
  rw [merged, merged, hcommit]
  simp only [hdrop, mergeBy_cons_of_eq _ hterm, htake, List.append_assoc, List.singleton_append]

theorem merged_cons_of_ne {b : LogEntry} (hlt : p < log.entries.length)
    (hterm : log.entries[p].term ≠ b.term) (new : List LogEntry) :
    log.merged p (b :: new) =
      { log with
        entries := log.entries.take p ++ b :: new
        commitIndex := min log.commitIndex (log.snapshotLastIndex + p) } := by
  have hdrop : log.entries.drop p = log.entries[p] :: log.entries.drop (p + 1) :=
    List.drop_eq_getElem_cons hlt
  simp only [merged, mergedCommit, hdrop, mergeBy_cons_of_ne _ hterm, Conflicts, agreeing, ne_eq, hterm,
    not_false_eq_true, true_or, if_true, if_false, Nat.cast_zero, add_zero]

theorem reconcileLoop_append (new : List LogEntry) :
    ∀ log : RaftLog, log.Contiguous →
      ContiguousFrom (log.snapshotLastIndex + 1 + log.entries.length) new →
      reconcileLoop new log = ({ log with entries := log.entries ++ new }, .ok ()) := by
  induction new with
  | nil => intro log _ _; rw [reconcileLoop, List.append_nil]
  | cons b new ih =>
    intro log hc hnew
    have hidx : b.index = log.snapshotLastIndex + 1 + log.entries.length := hnew.head
    have hnext : b.index = log.lastIndex + 1 := by
      rw [lastIndex_eq hc, hidx]
      omega
    have hrest : ContiguousFrom (log.snapshotLastIndex + 1 + (log.entries ++ [b]).length) new := by
      have htail := hnew.tail
      rw [List.length_append, List.length_singleton]
      push_cast
      rwa [← add_assoc]
    have hlonger : ({ log with entries := log.entries ++ [b] } : RaftLog).Contiguous :=
      ContiguousFrom.append hc (ContiguousFrom.singleton hidx)
    rw [reconcileLoop, hidx, getEntry_add, List.getElem?_eq_none (Nat.le_refl _)]
    rw [appendEntry_next hnext]
    dsimp only
    rw [ih _ hlonger hrest, List.append_assoc, List.singleton_append]

/-- **The loop is a merge**: from a contiguous log and consecutive entries that start right after
offset `p`, `reconcile_follower_entries` never raises and ends in the merged log. -/
theorem reconcileLoop_eq_merge (new : List LogEntry) :
    ∀ (log : RaftLog) (p : Nat), log.Contiguous → p ≤ log.entries.length →
      ContiguousFrom (log.snapshotLastIndex + 1 + p) new → reconcileLoop new log = (log.merged p new, .ok ()) := by
  induction new with
  | nil => intro log p _ _ _; rw [reconcileLoop, merged_nil]
  | cons b new ih =>
    intro log p hc hp hnew
    have hidx : b.index = log.snapshotLastIndex + 1 + p := hnew.head
    have hrest : ContiguousFrom (log.snapshotLastIndex + 1 + (p + 1 : Nat)) new := by
      have := hnew.tail
      push_cast
      rwa [← add_assoc]
    rcases Nat.lt_or_ge p log.entries.length with hlt | hge
    · -- a stored entry stands at this place
      rw [reconcileLoop, hidx, getEntry_add, List.getElem?_eq_getElem hlt]
      dsimp only
      by_cases hterm : log.entries[p].term = b.term
      · rw [if_neg (by simp [hterm]), ih log (p + 1) hc (by omega) hrest, merged_cons_of_eq hlt hterm]
      · obtain ⟨n, htrunc⟩ := truncateFrom_add hc hlt
        have hlen : (log.entries.take p).length = p := List.length_take_of_le hp
        have hcut : ({ log with
            entries := log.entries.take p
            commitIndex := min log.commitIndex (log.snapshotLastIndex + p) } : RaftLog).Contiguous :=
          hc.take p
        rw [if_pos hterm, htrunc, merged_cons_of_ne hlt hterm]
        -- the entry and the rest of them are appended to what is left
        have happend := reconcileLoop_append (b :: new) _ hcut (by rwa [hlen])
        rw [reconcileLoop, hidx, getEntry_add, List.getElem?_eq_none (Nat.le_of_eq hlen)] at happend
        exact happend
    · obtain rfl : p = log.entries.length := Nat.le_antisymm hp hge
      rw [merged_of_length_le hge]
      exact reconcileLoop_append (b :: new) log hc hnew

theorem merged_contiguous (hc : log.Contiguous)
    (hp : p ≤ log.entries.length) (hnew : ContiguousFrom (log.snapshotLastIndex + 1 + p) new) :
    (log.merged p new).Contiguous := by
  refine ContiguousFrom.append (hc.take p) ?_
  rw [List.length_take, min_eq_left hp]
  exact (hc.drop p).mergeBy hnew

end RaftLog

end MeshWeaver
