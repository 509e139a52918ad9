import MeshWeaver.Raft.LateSnapshot

/-!
# The representation of the log

The calls that change a `RaftLog` come down to six changes (`Change`). Each keeps the entries numbered from the
marker on and `commit_index` within the log, whatever the arguments are and also where a call raises halfway.
The order of the marker, `last_applied` and `commit_index` is kept as long as no truncation removes an entry
that counts as committed.
-/

namespace MeshWeaver

open Lib
open Relation (ReflTransGen)

namespace RaftLog

inductive Call where
  | appendEntry (entry : LogEntry)
  | appendCommand (term : Int) (command : Command) (now : Rat)
  | truncateFrom (fromIndex : Int)
  | reconcileFollowerEntries (prevLogIndex prevLogTerm : Int) (newEntries : List LogEntry)
  | advanceCommitIndex (newCommitIndex : Int)
  | markApplied (index : Int)
  | compactLogBefore (index : Int)
  | restoreSnapshot (lastIncludedIndex lastIncludedTerm : Int)

section Definitions

variable (log : RaftLog)

/-- The log after a method that raises before it changes anything. -/
def changed {α : Type} : Except PyError (RaftLog × α) → RaftLog
  | .ok (log', _) => log'
  | .error _ => log

def perform : Call → RaftLog
  | .appendEntry entry => log.changed (log.appendEntry entry)
  | .appendCommand term command now => log.changed (log.appendCommand term command now)
  | .truncateFrom fromIndex => log.changed (log.truncateFrom fromIndex)
  | .reconcileFollowerEntries prevLogIndex prevLogTerm newEntries =>
    (log.reconcileFollowerEntries prevLogIndex prevLogTerm newEntries).1
  | .advanceCommitIndex newCommitIndex => log.advanceCommitIndex newCommitIndex
  | .markApplied index => log.markApplied index
  | .compactLogBefore index => (log.compactLogBefore index).1
  | .restoreSnapshot lastIncludedIndex lastIncludedTerm => log.restoreSnapshot lastIncludedIndex lastIncludedTerm

/-- A snapshot that is restored does not end below the marker. -/
def Restores : Call → Prop
  | .restoreSnapshot lastIncludedIndex _ => log.snapshotLastIndex ≤ lastIncludedIndex
  | _ => True

def removed (fromIndex : Int) : List LogEntry :=
  log.entries.drop (log.changed (log.truncateFrom fromIndex)).entries.length

/-- The truncations of the loop over the entries of a request, each with the log it finds. -/
def loopTruncations : List LogEntry → RaftLog → List (RaftLog × Int)
  | [], _ => []
  | entry :: rest, log =>
    let conflicts := (log.getEntry entry.index).any fun existing => existing.term ≠ entry.term
    (if conflicts then [(log, entry.index)] else []) ++
      match reconcileLoop [entry] log with
      | (log', .ok ()) => loopTruncations rest log'
      | (_, .error _) => []

def truncations : Call → List (RaftLog × Int)
  | .truncateFrom fromIndex => [(log, fromIndex)]
  | .reconcileFollowerEntries prevLogIndex prevLogTerm newEntries =>
    if log.checkConsistency prevLogIndex prevLogTerm then loopTruncations newEntries log else []
  | _ => []

/-- No truncation removes an entry at or below `commit_index`. -/
def Spares (call : Call) : Prop :=
  ∀ t ∈ log.truncations call, ∀ e ∈ t.1.removed t.2, t.1.commitIndex < e.index
deriving Decidable

def cut (k : Nat) : RaftLog :=
  { log with entries := log.entries.take k, commitIndex := min log.commitIndex (log.snapshotLastIndex + k) }

end Definitions

/-- One change of a log; `spared` if what is cut off is not committed. -/
inductive Change (spared : Prop) (log : RaftLog) : RaftLog → Prop where
  | append {e : LogEntry} (he : e.index = log.lastIndex + 1) :
    Change spared log { log with entries := log.entries ++ [e] }
  | cut {k : Nat} (hk : k < log.entries.length) (hspared : spared → log.commitIndex ≤ log.snapshotLastIndex + k) :
    Change spared log (log.cut k)
  | commit {i : Int} (hle : log.commitIndex ≤ i) (hlast : i ≤ log.lastIndex) :
    Change spared log { log with commitIndex := i }
  | apply {i : Int} (hlt : log.lastApplied < i) : Change spared log { log with lastApplied := min i log.commitIndex }
  | compact {k : Nat} (hk : k < log.entries.length) (happlied : log.snapshotLastIndex + 1 + k ≤ log.lastApplied)
      (term : Int) :
    Change spared log { log with
      snapshotLastIndex := log.snapshotLastIndex + 1 + k
      snapshotLastTerm := term
      entries := log.entries.drop (k + 1) }
  | restore {i : Int} (hi : log.snapshotLastIndex ≤ i) (term : Int) : Change spared log (log.restoreSnapshot i term)

/-- The entries are numbered from the marker on, and `commit_index` is within the log. -/
structure Represented (log : RaftLog) : Prop where
  contiguous : log.Contiguous
  commit_le : log.commitIndex ≤ log.lastIndex

structure Settled (log : RaftLog) : Prop where
  marker_le : log.snapshotLastIndex ≤ log.lastApplied
  applied_le : log.lastApplied ≤ log.commitIndex

variable {spared : Prop} {log log' : RaftLog}

/-! ### What a change keeps -/

theorem Represented.of_length (hcontiguous : log.Contiguous)
    (hle : log.commitIndex ≤ log.snapshotLastIndex + log.entries.length) : log.Represented :=
  ⟨hcontiguous, by rwa [lastIndex_eq hcontiguous]⟩

theorem Represented.change (h : log.Represented) (hchange : Change spared log log') : log'.Represented := by
  have hcommit := h.commit_le
  rw [lastIndex_eq h.contiguous] at hcommit
  cases hchange with
  | append he =>
    refine .of_length (h.contiguous.append he) ?_
    simp only [List.length_append, List.length_singleton]
    omega
  | @cut k hk _ =>
    refine .of_length (h.contiguous.take k) ?_
    simp only [cut, List.length_take]
    omega
  | commit _ hlast => exact ⟨h.contiguous, hlast⟩
  | apply _ => exact ⟨h.contiguous, h.commit_le⟩
  | @compact k hk _ term =>
    refine .of_length (h.contiguous.drop (k + 1) (by push_cast; omega) rfl) ?_
    simp only [List.length_drop]
    omega
  | @restore i hi term =>
    refine .of_length (h.contiguous.restore hi term) ?_
    simp only [restoreSnapshot, filter_index_gt h.contiguous hi, List.length_drop]
    omega

/-- **A change that spares what is committed** keeps the indexes in order and lowers neither of the two. -/
theorem Settled.change (h : log.Settled) (hchange : Change True log log') :
    log'.Settled ∧ log.commitIndex ≤ log'.commitIndex ∧ log.lastApplied ≤ log'.lastApplied := by
  obtain ⟨hmarker, happlied⟩ := h
  cases hchange with
  | append _ => exact ⟨⟨hmarker, happlied⟩, le_rfl, le_rfl⟩
  | cut _ hspared =>
    have hkept := min_eq_left (hspared trivial)
    exact ⟨⟨hmarker, happlied.trans hkept.ge⟩, hkept.ge, le_rfl⟩
  | commit hle _ => exact ⟨⟨hmarker, happlied.trans hle⟩, hle, le_rfl⟩
  | apply hlt => exact ⟨⟨by dsimp only; omega, min_le_right _ _⟩, le_rfl, by dsimp only; omega⟩
  | compact _ hle _ => exact ⟨⟨hle, happlied⟩, le_rfl, le_rfl⟩
  | restore _ _ =>
    exact ⟨⟨le_max_right _ _, max_le_max_right _ happlied⟩, le_max_left _ _, le_max_left _ _⟩

/-! ### What a call does -/

abbrev Changes (spared : Prop) : RaftLog → RaftLog → Prop := ReflTransGen (Change spared)

theorem Represented.changes (h : log.Represented) (hchanges : Changes spared log log') : log'.Represented := by
  induction hchanges with
  | refl => exact h
  | tail _ hchange ih => exact ih.change hchange

theorem Settled.changes (h : log.Settled) (hchanges : Changes True log log') :
    log'.Settled ∧ log.commitIndex ≤ log'.commitIndex ∧ log.lastApplied ≤ log'.lastApplied := by
  induction hchanges with
  | refl => exact ⟨h, le_rfl, le_rfl⟩
  | tail _ hchange ih =>
    obtain ⟨hsettled, hcommit, happlied⟩ := ih.1.change hchange
    exact ⟨hsettled, ih.2.1.trans hcommit, ih.2.2.trans happlied⟩

theorem changes_appendEntry (log : RaftLog) (e : LogEntry) : Changes spared log (log.changed (log.appendEntry e)) := by
  rcases appendEntry_cases log e with ⟨err, herr⟩ | ⟨e', he', -, hok⟩
  · rw [herr]
    exact .refl
  · rw [hok]
    exact .single (.append he')

/-- **A truncation** removes nothing, or cuts the log at the entry with this index. -/
theorem truncateFrom_cases (h : log.Contiguous) (i : Int) :
    log.changed (log.truncateFrom i) = log ∨
      ∃ k < log.entries.length, i = log.snapshotLastIndex + 1 + k ∧ log.changed (log.truncateFrom i) = log.cut k := by
  by_cases hmarker : i ≤ log.snapshotLastIndex
  · rw [truncateFrom, if_pos hmarker]
    exact Or.inl rfl
  by_cases hlast : i > log.lastIndex
  · rw [truncateFrom, if_neg hmarker, if_pos hlast]
    exact Or.inl rfl
  · obtain ⟨k, hk⟩ := exists_offset (not_le.mp hmarker)
    rw [lastIndex_eq h] at hlast
    have hlt : k < log.entries.length := by omega
    obtain ⟨n, hcut⟩ := truncateFrom_add h hlt
    rw [hk, hcut]
    exact Or.inr ⟨k, hlt, rfl, rfl⟩

theorem changes_truncateFrom (h : log.Contiguous) {i : Int}
    (hspared : spared → ∀ e ∈ log.removed i, log.commitIndex < e.index) :
    Changes spared log (log.changed (log.truncateFrom i)) := by
  rcases truncateFrom_cases h i with heq | ⟨k, hk, -, heq⟩
  · rw [heq]
  · rw [heq]
    refine .single (.cut hk fun hs => ?_)
    have hmem : log.entries[k] ∈ log.removed i := by
      rw [removed, heq, cut, List.length_take, min_eq_left hk.le, List.drop_eq_getElem_cons hk]
      exact List.mem_cons_self
    have hlt := hspared hs _ hmem
    rw [h k _ (List.getElem?_eq_getElem hk)] at hlt
    omega

theorem reconcileLoop_cons (entry : LogEntry) (rest : List LogEntry) (log : RaftLog) :
    reconcileLoop (entry :: rest) log =
      match reconcileLoop [entry] log with
      | (log', .ok ()) => reconcileLoop rest log'
      | (log', .error err) => (log', .error err) := by
  simp only [reconcileLoop]
  cases log.getEntry entry.index with
  | none => cases log.appendEntry entry <;> rfl
  | some existing =>
    dsimp only
    split_ifs with hterm
    · cases log.truncateFrom entry.index with
      | error err => rfl
      | ok cut =>
        obtain ⟨log₁, n⟩ := cut
        dsimp only
        cases log₁.appendEntry entry <;> rfl
    · rfl

theorem changes_reconcileOne (h : log.Contiguous) {entry : LogEntry}
    (hspared : spared → ∀ existing ∈ log.getEntry entry.index, existing.term ≠ entry.term →
      ∀ e ∈ log.removed entry.index, log.commitIndex < e.index) :
    Changes spared log (reconcileLoop [entry] log).1 := by
  rw [reconcileLoop]
  cases hget : log.getEntry entry.index with
  | none =>
    convert changes_appendEntry log entry using 1
    cases log.appendEntry entry <;> rfl
  | some existing =>
    dsimp only
    split_ifs with hterm
    · have hcut := changes_truncateFrom h fun hs => hspared hs existing hget hterm
      cases htruncate : log.truncateFrom entry.index with
      | error err => exact .refl
      | ok result =>
        obtain ⟨log₁, n⟩ := result
        rw [htruncate] at hcut
        refine hcut.trans ?_
        change Changes spared log₁ _
        convert changes_appendEntry log₁ entry using 1
        dsimp only
        cases log₁.appendEntry entry <;> rfl
    · exact .refl

theorem changes_reconcileLoop (h : log.Represented) {new : List LogEntry}
    (hspared : spared → ∀ t ∈ loopTruncations new log, ∀ e ∈ t.1.removed t.2, t.1.commitIndex < e.index) :
    Changes spared log (reconcileLoop new log).1 := by
  induction new generalizing log with
  | nil => exact .refl
  | cons entry rest ih =>
    have hfirst : Changes spared log (reconcileLoop [entry] log).1 := by
      refine changes_reconcileOne h.contiguous fun hs existing hget hterm => ?_
      refine hspared hs (log, entry.index) (List.mem_append_left _ ?_)
      rw [hget]
      simp [hterm]
    rw [reconcileLoop_cons]
    cases hone : reconcileLoop [entry] log with
    | mk log' out =>
      rw [hone] at hfirst
      cases out with
      | error err => exact hfirst
      | ok u =>
        refine hfirst.trans (ih (h.changes hfirst) fun hs t ht => hspared hs t (List.mem_append_right _ ?_))
        rwa [hone]

theorem changes_perform (h : log.Represented) {call : Call} (hrestores : log.Restores call)
    (hspared : spared → log.Spares call) : Changes spared log (log.perform call) := by
  cases call with
  | appendEntry entry => exact changes_appendEntry log entry
  | appendCommand term command now =>
    rw [perform, appendCommand, appendEntry_next rfl]
    exact .single (.append rfl)
  | truncateFrom i =>
    exact changes_truncateFrom h.contiguous fun hs => hspared hs (log, i) List.mem_cons_self
  | reconcileFollowerEntries prev term new =>
    rw [perform, reconcileFollowerEntries_fst]
    split_ifs with hcheck
    · refine changes_reconcileLoop h fun hs t ht => hspared hs t ?_
      rwa [truncations, if_pos hcheck]
    · exact .refl
  | advanceCommitIndex i =>
    rw [perform, advanceCommitIndex_eq]
    exact .single (.commit (le_max_left _ _) (max_le h.commit_le (min_le_right _ _)))
  | markApplied i =>
    rw [perform, markApplied]
    split_ifs with hlt
    · exact .single (.apply hlt)
    · exact .refl
  | compactLogBefore i =>
    rw [perform]
    rcases compactLogBefore_cases h.contiguous i with heq | ⟨k, e, he, hle, heq⟩
    · rw [heq]
    · rw [heq]
      exact .single (.compact (List.getElem?_eq_some_iff.mp he).1 hle e.term)
  | restoreSnapshot i term => exact .single (.restore hrestores term)

theorem changes_run (h : log.Represented) {calls : List Call} (hrestores : Along perform Restores log calls)
    (hspared : spared → Along perform Spares log calls) : Changes spared log (run perform log calls) := by
  induction calls generalizing log with
  | nil => exact .refl
  | cons call calls ih =>
    have hfirst := changes_perform h hrestores.1 fun hs => (hspared hs).1
    exact hfirst.trans (ih (h.changes hfirst) hrestores.2 fun hs => (hspared hs).2)

/-! ### Reading the log -/

theorem Contiguous.getEntry_eq_some_iff (h : log.Contiguous) {i : Int} {e : LogEntry} :
    log.getEntry i = some e ↔ e ∈ log.entries ∧ e.index = i := by
  constructor
  · intro hget
    refine ⟨?_, getEntry_index h hget⟩
    rw [getEntry_eq] at hget
    split_ifs at hget
    exact List.mem_of_getElem? hget
  · rintro ⟨hmem, rfl⟩
    obtain ⟨k, hk⟩ := List.mem_iff_getElem?.mp hmem
    rw [h k e hk, getEntry_add, hk]

theorem Contiguous.isSome_getEntry_iff (h : log.Contiguous) (i : Int) :
    (log.getEntry i).isSome ↔ log.snapshotLastIndex < i ∧ i ≤ log.lastIndex := by
  rw [getEntry_eq, lastIndex_eq h]
  split_ifs with hle
  · simp [hle]
  · rw [isSome_getElem?]
    omega

/-- **The representation of the log.** After any calls the `k`-th stored entry has the index
`snapshot_last_index + 1 + k`, `get_entry` finds exactly the stored entries by their indexes, and `commit_index`
is within the log. If no truncation has removed an entry at or below `commit_index`, the marker, `last_applied`
and `commit_index` are in order, and the last two have never decreased. -/
theorem represented_run (calls : List Call) (hrestores : Along perform Restores empty calls) :
    let log := run perform empty calls
    (∀ (k : Nat) (e : LogEntry), log.entries[k]? = some e → e.index = log.snapshotLastIndex + 1 + k) ∧
      log.lastIndex = log.snapshotLastIndex + log.entries.length ∧
      (∀ i e, log.getEntry i = some e ↔ e ∈ log.entries ∧ e.index = i) ∧
      (∀ i, (log.getEntry i).isSome ↔ log.snapshotLastIndex < i ∧ i ≤ log.lastIndex) ∧
      log.commitIndex ≤ log.lastIndex ∧
      (Along perform Spares empty calls →
        log.snapshotLastIndex ≤ log.lastApplied ∧ log.lastApplied ≤ log.commitIndex ∧
          ∀ n, (run perform empty (calls.take n)).commitIndex ≤ log.commitIndex ∧
            (run perform empty (calls.take n)).lastApplied ≤ log.lastApplied) := by
  intro log
  have hempty : empty.Represented := ⟨contiguous_empty, le_rfl⟩
  have hlog : log.Represented := hempty.changes (changes_run hempty hrestores (False.elim : False → _))
  refine ⟨hlog.contiguous, lastIndex_eq hlog.contiguous, fun i e => hlog.contiguous.getEntry_eq_some_iff,
    hlog.contiguous.isSome_getEntry_iff, hlog.commit_le, fun hspares => ?_⟩
  have hsettled : empty.Settled := ⟨le_rfl, le_rfl⟩
  have hall := hsettled.changes (changes_run hempty hrestores fun _ => hspares)
  refine ⟨hall.1.marker_le, hall.1.applied_le, fun n => ?_⟩
  rw [← List.take_append_drop n calls] at hrestores hspares
  have hfirst := changes_run hempty hrestores.of_append_left fun _ : True => hspares.of_append_left
  have hrest := changes_run (hempty.changes hfirst) hrestores.of_append_right fun _ : True => hspares.of_append_right
  rw [← Lib.run_append, List.take_append_drop] at hrest
  exact ((hsettled.changes hfirst).1.changes hrest).2

/-- Two entries are appended, the first one is committed, applied and compacted, and a request replaces the
other one. -/
theorem represented_after_compaction :
    let calls : List Call := [.appendEntry (writeEntry 0 1 "x"), .appendEntry (writeEntry 2 1 "x"),
      .appendEntry (writeEntry 5 1 "x"), .advanceCommitIndex 1, .markApplied 4, .compactLogBefore 2,
      .reconcileFollowerEntries 1 1 [writeEntry 2 2 "x"], .restoreSnapshot 1 1]
    let log := run perform empty calls
    log.commitIndex ≤ log.lastIndex ∧ log.snapshotLastIndex ≤ log.lastApplied := by
  intro calls log
  have hmarker : (run perform empty (calls.take 7)).snapshotLastIndex ≤ 1 := by decide
  have hrestores : Along perform Restores empty calls :=
    ⟨trivial, trivial, trivial, trivial, trivial, trivial, trivial, hmarker, trivial⟩
  obtain ⟨-, -, -, -, hcommit, hsettled⟩ := represented_run calls hrestores
  exact ⟨hcommit, (hsettled (by decide)).1⟩

end RaftLog

end MeshWeaver
