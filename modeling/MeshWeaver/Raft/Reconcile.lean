import MeshWeaver.Raft.LogFacts

/-!
# Reconciling with a request built from another log

A log that has never been compacted is a list of entries numbered from 1 (`Uncompacted`). The request a leader builds
from such a log `L` carries the term of `L` at `prev` (`termAt`) and the entries `L.drop prev`. When the follower's
entries and `L` agree up to any place where their terms are equal (`Agree`), an accepted request leaves the follower
with `L`, unless its own log is longer and no entry conflicts, and then with its own (`reconcile_agree`).
-/

namespace MeshWeaver

open Lib

def writeCommand (key : String) : Command :=
  { commandType := .set, key := some key, value := .none, clientId := none, fencingToken := none,
    extraData := [] }

def writeEntry (index term : Int) (key : String) : LogEntry :=
  { index, term, commandType := .set, key := some key, value := .none, clientId := none,
    timestamp := 1, fencingToken := none, extraData := .dict [] }

/-- The term of the entry with index `i`, or 0 when there is none. -/
def termAt (es : List LogEntry) (i : Int) : Int :=
  if i ≤ 0 then 0 else ((es[(i - 1).toNat]?).map LogEntry.term).getD 0

/-- Two logs agree up to any index at which their terms are equal. -/
def Agree (es fs : List LogEntry) : Prop :=
  ∀ (k : Nat) (e f : LogEntry), es[k]? = some e → fs[k]? = some f → e.term = f.term →
    es.take (k + 1) = fs.take (k + 1)

namespace Agree

variable {es fs : List LogEntry}

theorem symm (h : Agree es fs) : Agree fs es :=
  fun k e f he hf hterm => (h k f e hf he hterm.symm).symm

theorem of_common {ls : List LogEntry} (hes : es <+: ls) (hfs : fs <+: ls) : Agree es fs := by
  intro k e f he hf _
  have hk : k < es.length := (List.getElem?_eq_some_iff.mp he).1
  have hk' : k < fs.length := (List.getElem?_eq_some_iff.mp hf).1
  rw [List.prefix_iff_eq_take.mp hes, List.prefix_iff_eq_take.mp hfs, List.take_take,
    List.take_take, min_eq_left (by omega), min_eq_left (by omega)]

theorem drop (h : Agree es fs) (n : Nat) : Matching LogEntry.term (es.drop n) (fs.drop n) := by
  intro k e f he hf hterm
  rw [List.getElem?_drop] at he hf
  have htake := h (n + k) e f he hf hterm
  have hlast := congrArg (fun l => l[n + k]?) htake
  simp only [List.getElem?_take, if_pos (Nat.lt_succ_self _)] at hlast
  rw [he, hf] at hlast
  exact Option.some.inj hlast

theorem of_isPrefix (h : es <+: fs) : Agree es fs := of_common h (List.prefix_refl fs)

end Agree

theorem not_conflicts_of_common {es fs ls : List LogEntry} (hes : es <+: ls) (hfs : fs <+: ls)
    (n : Nat) : ¬ Conflicts LogEntry.term (es.drop n) (fs.drop n) := by
  rw [conflicts_iff]
  rintro ⟨k, e, f, he, hf, hne⟩
  rw [List.getElem?_drop] at he hf
  have he' := getElem?_of_isPrefix hes he
  have hf' := getElem?_of_isPrefix hfs hf
  rw [he', Option.some.injEq] at hf'
  exact hne (by rw [hf'])

namespace RaftLog

variable {log : RaftLog}

/-- The log has never been compacted: its entries are numbered from 1. -/
structure Uncompacted (log : RaftLog) : Prop where
  noSnapshot : log.snapshotLastIndex = 0
  numbered : ContiguousFrom 1 log.entries

namespace Uncompacted

theorem empty : RaftLog.empty.Uncompacted := ⟨rfl, ContiguousFrom.nil⟩

section

variable (h : log.Uncompacted)
include h

theorem contiguous : log.Contiguous := by
  rw [Contiguous, h.noSnapshot]
  exact h.numbered

theorem lastIndex : log.lastIndex = log.entries.length := by
  rw [lastIndex_eq h.contiguous, h.noSnapshot, zero_add]

theorem getEntry_succ (k : Nat) : log.getEntry (k + 1) = log.entries[k]? := by
  have := getEntry_add log k
  rwa [h.noSnapshot, zero_add, add_comm] at this

theorem getEntry {i : Int} (hi : 1 ≤ i) : log.getEntry i = log.entries[(i - 1).toNat]? := by
  rw [← h.getEntry_succ]
  congr 1
  omega

theorem getEntry_nonpos {i : Int} (hi : i ≤ 0) : log.getEntry i = none :=
  getEntry_of_le (by rw [h.noSnapshot]; exact hi)

theorem getTerm (i : Int) : log.getTerm i = termAt log.entries i := by
  unfold RaftLog.getTerm termAt
  rw [h.noSnapshot]
  rcases lt_trichotomy i 0 with hneg | rfl | hpos
  · rw [if_neg (by omega), if_neg (by omega), if_pos (by omega), h.getEntry_nonpos (by omega)]
  · simp
  · rw [if_neg (by omega), if_neg (by omega), if_neg (by omega), h.getEntry (by omega)]
    cases log.entries[(i - 1).toNat]? <;> rfl

theorem sliceFrom (i : Int) : log.sliceFrom i = log.entries.drop (i - 1).toNat := by
  unfold RaftLog.sliceFrom
  rw [h.noSnapshot, h.lastIndex]
  by_cases hi : i > log.entries.length
  · rw [if_pos hi, List.drop_of_length_le (by omega)]
  · rw [if_neg hi]
    congr 1
    omega

theorem checkConsistency_iff {prev term : Int} :
    log.checkConsistency prev term = true ↔
      prev = 0 ∨ 1 ≤ prev ∧ ∃ e, log.entries[(prev - 1).toNat]? = some e ∧ e.term = term := by
  unfold RaftLog.checkConsistency
  rw [h.noSnapshot]
  rcases lt_trichotomy prev 0 with hneg | rfl | hpos
  · rw [if_neg (by omega), h.getEntry_nonpos (by omega)]
    simp
    omega
  · simp
  · rw [if_neg (by omega), if_neg (by omega), h.getEntry (by omega)]
    cases hget : log.entries[(prev - 1).toNat]? with
    | none => simp; omega
    | some e =>
      simp only [decide_eq_true_eq, Option.some.injEq, exists_eq_left']
      constructor
      · intro hterm
        exact Or.inr ⟨by omega, hterm⟩
      · rintro (h0 | ⟨-, hterm⟩)
        · omega
        · exact hterm

end

end Uncompacted

theorem prev_le_length (h : log.Uncompacted) {prev term : Int} (hcheck : log.checkConsistency prev term = true) :
    0 ≤ prev ∧ prev.toNat ≤ log.entries.length := by
  rcases h.checkConsistency_iff.mp hcheck with h0 | ⟨hpos, e, he, -⟩
  · simp [h0]
  · have := (List.getElem?_eq_some_iff.mp he).1
    omega

theorem take_prev_eq (h : log.Uncompacted) {L : List LogEntry} (hagree : Agree log.entries L)
    {prev : Int} (hcheck : log.checkConsistency prev (termAt L prev) = true)
    (hprev : prev.toNat ≤ L.length) : log.entries.take prev.toNat = L.take prev.toNat := by
  rcases h.checkConsistency_iff.mp hcheck with h0 | ⟨hpos, e, he, hterm⟩
  · simp [h0]
  · have hlt : (prev - 1).toNat < L.length := by omega
    have hf : L[(prev - 1).toNat]? = some L[(prev - 1).toNat] := List.getElem?_eq_getElem hlt
    have hsucc : (prev - 1).toNat + 1 = prev.toNat := by omega
    rw [← hsucc]
    refine hagree _ _ _ he hf ?_
    rw [hterm, termAt, if_neg (by omega), hf]
    rfl

/-- **Reconciling with a log that agrees**: an accepted request built from `L` never raises, and the
follower ends with the entries of `L` or with its own. -/
theorem reconcile_agree (h : log.Uncompacted) {L : List LogEntry} (hL : ContiguousFrom 1 L)
    (hagree : Agree log.entries L) {prev : Int}
    (hcheck : log.checkConsistency prev (termAt L prev) = true) :
    let log' := log.merged prev.toNat (L.drop prev.toNat)
    log.reconcileFollowerEntries prev (termAt L prev) (L.drop prev.toNat) =
        (log', .ok (true, log'.lastIndex)) ∧
      log'.Uncompacted ∧
      (log'.entries = L ∧ (Conflicts LogEntry.term (log.entries.drop prev.toNat)
            (L.drop prev.toNat) ∨ log.entries.length ≤ L.length) ∨
        log'.entries = log.entries ∧ ¬ Conflicts LogEntry.term (log.entries.drop prev.toNat)
            (L.drop prev.toNat) ∧ L.length < log.entries.length) := by
  intro log'
  obtain ⟨hprev, hlen⟩ := prev_le_length h hcheck
  have hnew : ContiguousFrom (log.snapshotLastIndex + 1 + prev.toNat) (L.drop prev.toNat) := by
    rw [h.noSnapshot, zero_add]
    exact hL.drop prev.toNat
  have hloop := reconcileLoop_eq_merge (L.drop prev.toNat) log prev.toNat h.contiguous hlen hnew
  have hnum : log'.Uncompacted := by
    refine ⟨h.noSnapshot, ?_⟩
    have := merged_contiguous h.contiguous hlen hnew
    rwa [Contiguous, show (log.merged prev.toNat (L.drop prev.toNat)).snapshotLastIndex = 0 from
      h.noSnapshot] at this
  refine ⟨?_, hnum, ?_⟩
  · rw [reconcileFollowerEntries, if_pos hcheck, hloop]
  · rcases Nat.lt_or_ge L.length prev.toNat with hlt | hge
    · -- the leader's log does not reach the previous index: there is nothing to merge
      right
      have hnil : L.drop prev.toNat = [] := List.drop_of_length_le hlt.le
      have hno : ¬ Conflicts LogEntry.term (log.entries.drop prev.toNat) [] := by
        cases log.entries.drop prev.toNat <;> exact id
      rw [hnil]
      refine ⟨?_, hno, by omega⟩
      simp only [log', hnil, merged_nil]
    · have htake := take_prev_eq h hagree hcheck hge
      have hentries : log'.entries = log.entries.take prev.toNat ++
          mergeBy LogEntry.term (log.entries.drop prev.toNat) (L.drop prev.toNat) := rfl
      rcases mergeBy_cases (hagree.drop prev.toNat) with ⟨hm, hwhy⟩ | ⟨hm, hno, hlong⟩
      · left
        refine ⟨by rw [hentries, hm, htake, List.take_append_drop], hwhy.imp_right fun hle => ?_⟩
        simp only [List.length_drop] at hle
        omega
      · right
        refine ⟨by rw [hentries, hm, List.take_append_drop], hno, ?_⟩
        simp only [List.length_drop] at hlong
        omega

/-! ### The commit index after a merge -/

theorem take_agreeing_mergeBy (old new : List LogEntry) :
    (mergeBy LogEntry.term old new).take (agreeing old new) = old.take (agreeing old new) := by
  induction old generalizing new with
  | nil => simp [agreeing]
  | cons a old ih =>
    cases new with
    | nil => simp [agreeing]
    | cons b new =>
      by_cases hterm : a.term = b.term
      · simp [agreeing, hterm, mergeBy_cons_of_eq _ hterm, ih]
      · simp [agreeing, hterm]

theorem mergedCommit_le (log : RaftLog) (p : Nat) (new : List LogEntry) :
    log.mergedCommit p new ≤ log.commitIndex := by
  unfold mergedCommit
  split_ifs
  · exact min_le_left _ _
  · exact le_rfl

theorem isPrefix_mergeBy_of_not_conflicts {old new : List LogEntry}
    (h : ¬ Conflicts LogEntry.term old new) : old <+: mergeBy LogEntry.term old new := by
  induction old generalizing new with
  | nil => exact List.nil_prefix
  | cons a old ih =>
    cases new with
    | nil => rw [mergeBy_nil_right]
    | cons b new =>
      rw [Conflicts, not_or, not_not] at h
      rw [mergeBy_cons_of_eq _ h.1]
      exact List.cons_prefix_cons.mpr ⟨rfl, ih h.2⟩

theorem merged_take_commit (h : log.Uncompacted) {p : Nat} (hp : p ≤ log.entries.length)
    (hcommit : log.commitIndex ≤ log.entries.length) (new : List LogEntry) :
    (log.merged p new).entries.take (log.mergedCommit p new).toNat =
      log.entries.take (log.mergedCommit p new).toNat := by
  have hsplit : log.entries = log.entries.take p ++ log.entries.drop p :=
    (List.take_append_drop p log.entries).symm
  have htaken : (log.entries.take p).length = p := by simp [hp]
  show (log.entries.take p ++ mergeBy LogEntry.term (log.entries.drop p) new).take _ = _
  by_cases hc : Conflicts LogEntry.term (log.entries.drop p) new
  · have hle : (log.mergedCommit p new).toNat ≤ p + agreeing (log.entries.drop p) new := by
      rw [mergedCommit, if_pos hc, h.noSnapshot]
      omega
    have hsame : (log.entries.take p ++ mergeBy LogEntry.term (log.entries.drop p) new).take
          (p + agreeing (log.entries.drop p) new) =
        log.entries.take (p + agreeing (log.entries.drop p) new) := by
      rw [List.take_add, List.take_add, List.take_left' htaken, List.drop_left' htaken,
        take_agreeing_mergeBy]
    have := congrArg (List.take (log.mergedCommit p new).toNat) hsame
    rwa [List.take_take, List.take_take, min_eq_left hle] at this
  · have hpre : log.entries <+:
        log.entries.take p ++ mergeBy LogEntry.term (log.entries.drop p) new := by
      conv_lhs => rw [hsplit]
      exact (List.prefix_append_right_inj _).mpr (isPrefix_mergeBy_of_not_conflicts hc)
    have hle : (log.mergedCommit p new).toNat ≤ log.entries.length := by
      rw [mergedCommit, if_neg hc]
      omega
    conv_rhs => rw [List.prefix_iff_eq_take.mp hpre, List.take_take, min_eq_left hle]

end RaftLog

/-- An entry of the request carries another term than the stored entry with its index. -/
def EntryConflicts (log : RaftLog) (entries : List LogEntry) : Prop :=
  ∃ e ∈ entries, ∃ f, log.getEntry e.index = some f ∧ f.term ≠ e.term
deriving Decidable

theorem entryConflicts_iff {log : RaftLog} (h : log.Uncompacted) {L : List LogEntry}
    (hL : ContiguousFrom 1 L) (p : Nat) :
    EntryConflicts log (L.drop p) ↔ Conflicts LogEntry.term (log.entries.drop p) (L.drop p) := by
  rw [conflicts_iff]
  constructor
  · rintro ⟨e, he, f, hf, hne⟩
    obtain ⟨k, hk⟩ := List.mem_iff_getElem?.mp he
    have hidx : e.index = 1 + (p : Int) + k := hL.drop p k e hk
    rw [h.getEntry (by omega), show (e.index - 1).toNat = p + k by omega,
      ← List.getElem?_drop] at hf
    exact ⟨k, f, e, hf, hk, hne⟩
  · rintro ⟨k, f, e, hf, he, hne⟩
    have hidx : e.index = 1 + (p : Int) + k := hL.drop p k e he
    refine ⟨e, List.mem_iff_getElem?.mpr ⟨k, he⟩, f, ?_, hne⟩
    rwa [h.getEntry (by omega), show (e.index - 1).toNat = p + k by omega, ← List.getElem?_drop]

/-! ### The reference merge -/

namespace RaftLog

/-- The log has an entry with this index, and so has the request, with another term. -/
def ConflictsAt (log : RaftLog) (new : List LogEntry) (index : Int) : Prop :=
  ∃ e ∈ new, ∃ f, e.index = index ∧ log.getEntry index = some f ∧ f.term ≠ e.term

variable {log : RaftLog} {prev : Int} {new : List LogEntry}

theorem exists_offset_of_check (h : log.Contiguous) (hlast : 0 ≤ log.lastIndex)
    (hprev : log.snapshotLastIndex ≤ prev) {term : Int} (hcheck : log.checkConsistency prev term = true) :
    ∃ p : Nat, prev = log.snapshotLastIndex + p ∧ p ≤ log.entries.length := by
  rw [lastIndex_eq h] at hlast
  refine ⟨(prev - log.snapshotLastIndex).toNat, by omega, ?_⟩
  unfold checkConsistency at hcheck
  split_ifs at hcheck with hzero hsnap
  · omega
  · omega
  · cases hget : log.getEntry prev with
    | none => rw [hget] at hcheck; cases hcheck
    | some f =>
      rw [getEntry_eq, if_neg (by omega)] at hget
      have hlt := (List.getElem?_eq_some_iff.mp hget).1
      omega

section
variable {p : Nat} (hnew : ContiguousFrom (log.snapshotLastIndex + 1 + p) new)
include hnew

theorem conflictsAt_iff {index : Int} : log.ConflictsAt new index ↔
    ∃ (k : Nat) (f e : LogEntry), index = log.snapshotLastIndex + 1 + p + k ∧
      (log.entries.drop p)[k]? = some f ∧ new[k]? = some e ∧ f.term ≠ e.term := by
  have hget : ∀ k : Nat, log.getEntry (log.snapshotLastIndex + 1 + p + k) = (log.entries.drop p)[k]? := by
    intro k
    have hadd := getEntry_add log (p + k)
    rwa [Nat.cast_add, ← add_assoc, ← List.getElem?_drop] at hadd
  constructor
  · rintro ⟨e, he, f, rfl, hf, hne⟩
    obtain ⟨k, hk⟩ := List.mem_iff_getElem?.mp he
    have hindex := hnew k e hk
    exact ⟨k, f, e, hindex, by rw [← hget, ← hindex, hf], hk, hne⟩
  · rintro ⟨k, f, e, rfl, hf, he, hne⟩
    exact ⟨e, List.mem_iff_getElem?.mpr ⟨k, he⟩, f, hnew k e he, by rw [hget, hf], hne⟩

theorem conflicts_iff_conflictsAt : Conflicts LogEntry.term (log.entries.drop p) new ↔
    ∃ index, log.ConflictsAt new index := by
  rw [conflicts_iff]
  constructor
  · rintro ⟨k, f, e, hf, he, hne⟩
    exact ⟨_, (conflictsAt_iff hnew).mpr ⟨k, f, e, rfl, hf, he, hne⟩⟩
  · rintro ⟨index, hindex⟩
    obtain ⟨k, f, e, -, hf, he, hne⟩ := (conflictsAt_iff hnew).mp hindex
    exact ⟨k, f, e, hf, he, hne⟩

end

theorem merged_entries_spec (h : log.Contiguous) {p : Nat} (hp : p ≤ log.entries.length)
    (hnew : ContiguousFrom (log.snapshotLastIndex + 1 + p) new) :
    (∀ index, log.ConflictsAt new index → (∀ other < index, ¬ log.ConflictsAt new other) →
        (log.merged p new).entries =
          log.entries.filter (fun e => e.index < index) ++ new.filter (fun e => e.index ≥ index)) ∧
      ((∀ index, ¬ log.ConflictsAt new index) → (∀ e ∈ new, e.index ≤ log.lastIndex) →
        (log.merged p new).entries = log.entries) ∧
      ((∀ index, ¬ log.ConflictsAt new index) → (∃ e ∈ new, log.lastIndex < e.index) →
        (log.merged p new).entries = log.entries ++ new.filter fun e => e.index > log.lastIndex) := by
  have hlast := lastIndex_eq h
  have hdrop : (log.entries.drop p).length = log.entries.length - p := List.length_drop
  refine ⟨?_, ?_, ?_⟩
  · intro index hindex hleast
    obtain ⟨k, f, e, rfl, hf, he, hne⟩ := (conflictsAt_iff hnew).mp hindex
    have hmerge : mergeBy LogEntry.term (log.entries.drop p) new =
        (log.entries.drop p).take k ++ new.drop k := by
      refine mergeBy_of_first hf he hne fun i hi x y hx hy => ?_
      by_contra hdiffer
      exact hleast _ (by omega) ((conflictsAt_iff hnew).mpr ⟨i, x, y, rfl, hx, hy, hdiffer⟩)
    have hkept : log.entries.filter (fun e => e.index < log.snapshotLastIndex + 1 + p + k) =
        log.entries.take (p + k) := by
      rw [← h.filter_lt (p + k), Nat.cast_add, ← add_assoc]
    have hadded : new.filter (fun e => e.index ≥ log.snapshotLastIndex + 1 + p + k) = new.drop k := by
      rw [← hnew.filter_gt k]
      refine List.filter_congr fun e _ => ?_
      rw [decide_eq_decide]
      omega
    rw [hkept, hadded, merged, hmerge, List.take_add, List.append_assoc]
  · intro hnone hreached
    have hconflicts : ¬ Conflicts LogEntry.term (log.entries.drop p) new := by
      rw [conflicts_iff_conflictsAt hnew]
      rintro ⟨index, hindex⟩
      exact hnone index hindex
    have hlength : new.length ≤ (log.entries.drop p).length := by
      by_contra hlong
      have hget := List.getElem?_eq_getElem (not_le.mp hlong)
      have hindex := hnew _ _ hget
      have hle := hreached _ (List.mem_iff_getElem?.mpr ⟨_, hget⟩)
      omega
    rw [merged_eq_self hconflicts hlength]
  · rintro hnone ⟨last, hmem, hbeyond⟩
    have hconflicts : ¬ Conflicts LogEntry.term (log.entries.drop p) new := by
      rw [conflicts_iff_conflictsAt hnew]
      rintro ⟨index, hindex⟩
      exact hnone index hindex
    obtain ⟨k, hk⟩ := List.mem_iff_getElem?.mp hmem
    have hindex := hnew k last hk
    have hlt := (List.getElem?_eq_some_iff.mp hk).1
    have hadded : new.filter (fun e => e.index > log.lastIndex) = new.drop (log.entries.drop p).length := by
      rw [← hnew.filter_gt]
      refine List.filter_congr fun e _ => ?_
      rw [decide_eq_decide]
      omega
    rw [hadded, merged, mergeBy_of_not_conflicts_of_le hconflicts (by omega), ← List.append_assoc,
      List.take_append_drop]

/-- **Reconciling is the reference merge.** On a log without gaps, an accepted request with consecutive
entries does not raise; the entries are replaced from the least conflicting index on, kept where nothing
conflicts and nothing is missing, and completed otherwise. A refused request changes nothing. The last index is
negative only for a log that was restored from a snapshot with a negative one. -/
theorem reconcile_eq_reference (log : RaftLog) (h : log.Contiguous) (hlast : 0 ≤ log.lastIndex)
    (prev term : Int) (new : List LogEntry) :
    (log.snapshotLastIndex ≤ prev → log.checkConsistency prev term = true → ContiguousFrom (prev + 1) new →
      ∃ log', log.reconcileFollowerEntries prev term new = (log', .ok (true, log'.lastIndex)) ∧
        (∀ index, log.ConflictsAt new index → (∀ other < index, ¬ log.ConflictsAt new other) →
          log'.entries =
            log.entries.filter (fun e => e.index < index) ++ new.filter (fun e => e.index ≥ index)) ∧
        ((∀ index, ¬ log.ConflictsAt new index) → (∀ e ∈ new, e.index ≤ log.lastIndex) →
          log'.entries = log.entries) ∧
        ((∀ index, ¬ log.ConflictsAt new index) → (∃ e ∈ new, log.lastIndex < e.index) →
          log'.entries = log.entries ++ new.filter fun e => e.index > log.lastIndex) ∧
        ∀ index ≤ prev, log'.getEntry index = log.getEntry index) ∧
      (log.checkConsistency prev term = false →
        log.reconcileFollowerEntries prev term new = (log, .ok (false, log.lastIndex))) := by
  refine ⟨fun hprev hcheck hnew => ?_, fun hcheck => ?_⟩
  · obtain ⟨p, rfl, hp⟩ := exists_offset_of_check h hlast hprev hcheck
    rw [add_right_comm] at hnew
    obtain ⟨hreplaced, hkept, hcompleted⟩ := merged_entries_spec h hp hnew
    refine ⟨log.merged p new, ?_, hreplaced, hkept, hcompleted, fun index hindex => ?_⟩
    · rw [reconcileFollowerEntries, if_pos hcheck, reconcileLoop_eq_merge new log p h hp hnew]
    · rw [getEntry_eq, getEntry_eq]
      change (if index ≤ log.snapshotLastIndex then none else
        (log.entries.take p ++ _)[(index - log.snapshotLastIndex - 1).toNat]?) = _
      split_ifs with hcompacted
      · rfl
      · rw [List.getElem?_append_left (by rw [List.length_take]; omega), List.getElem?_take,
          if_pos (by omega)]
  · rw [reconcileFollowerEntries, if_neg (by rw [hcheck]; exact Bool.false_ne_true)]

def compactedLog : RaftLog := ⟨[writeEntry 4 1 "a", writeEntry 5 1 "b"], 4, 3, 3, 1⟩

theorem reconcile_eq_reference_compactedLog :
    ∃ log', compactedLog.reconcileFollowerEntries 4 1 [writeEntry 5 2 "c", writeEntry 6 2 "d"] =
        (log', .ok (true, log'.lastIndex)) ∧
      log'.entries = [writeEntry 4 1 "a", writeEntry 5 2 "c", writeEntry 6 2 "d"] := by
  have hlog : compactedLog.Contiguous :=
    ContiguousFrom.cons_iff.mpr ⟨rfl, ContiguousFrom.singleton rfl⟩
  have hnew : ContiguousFrom 5 [writeEntry 5 2 "c", writeEntry 6 2 "d"] :=
    ContiguousFrom.cons_iff.mpr ⟨rfl, ContiguousFrom.singleton rfl⟩
  have hconflict : compactedLog.ConflictsAt [writeEntry 5 2 "c", writeEntry 6 2 "d"] 5 :=
    ⟨_, List.mem_cons_self, writeEntry 5 1 "b", rfl, rfl, by decide⟩
  have hleast : ∀ other < 5, ¬ compactedLog.ConflictsAt [writeEntry 5 2 "c", writeEntry 6 2 "d"] other := by
    rintro _ hother ⟨e, he, f, rfl, -⟩
    obtain ⟨k, hk⟩ := List.mem_iff_getElem?.mp he
    have hindex := hnew k e hk
    omega
  obtain ⟨log', hreconcile, hreplaced, -⟩ :=
    (reconcile_eq_reference compactedLog hlog (by decide) 4 1 _).1 (by decide) (by decide) hnew
  exact ⟨log', hreconcile, hreplaced 5 hconflict hleast⟩

end RaftLog

end MeshWeaver
