import MeshWeaver.Raft.LogFacts
import MeshWeaver.Wal.Recovery

/-!
# The recovered log and the recovered state

For records that carry log entries and commit indexes, recovery moves the log and the state machine
side by side, but by different rules: whatever is committed is applied at once, also if it has been
applied before, if entries before it are missing, or if the log holds another entry in its place.
-/

namespace MeshWeaver

open Lib RaftLog

namespace Recovered

variable {s : Recovered} {log log' : RaftLog} {sm : ReplicatedStateMachine} {clock times : Clock}
  {record : WALRecord} {entry : LogEntry} {applied : List LogEntry}

/-- The entries that the replay of a record applies. -/
def applies (times : Clock) (s : Recovered) (record : WALRecord) : List LogEntry :=
  match record.recordType, record.entry (times record.seqNo) with
  | .entry, .ok entry =>
    match s.logged entry with
    | .ok _ => if record.committed then [entry] else []
    | .error _ => []
  | _, _ => []

/-- **What the replay of a record does** to a log and a state machine. -/
inductive ReplayMove (clock times : Clock) (record : WALRecord) (log : RaftLog)
    (sm : ReplicatedStateMachine) : RaftLog → ReplicatedStateMachine → List LogEntry → Prop
  | keeps (undone : ∀ entry, record.recordType = .entry →
      record.entry (times record.seqNo) = .ok entry → log.lastIndex + 1 < entry.index) :
      ReplayMove clock times record log sm log sm []
  | marks (i : Int) (kind : record.recordType = .commitMarker) :
      ReplayMove clock times record log sm (log.advanceCommitIndex i) sm []
  | logs (entry : LogEntry) (log' : RaftLog) (uncommitted : record.committed = false)
      (logged : logEntry log entry = .ok log') :
      ReplayMove clock times record log sm log' sm []
  | applies (entry : LogEntry) (log' : RaftLog) (kind : record.recordType = .entry)
      (carried : record.entry (times record.seqNo) = .ok entry) (committed : record.committed = true)
      (logged : logEntry log entry = .ok log') :
      ReplayMove clock times record log sm
        ((log'.advanceCommitIndex entry.index).markApplied entry.index)
        (sm.applyCommand clock entry).1 [entry]

theorem logEntry_cases (log : RaftLog) (entry : LogEntry) (h : 0 ≤ log.lastIndex) :
    (entry.index ≤ log.lastIndex ∧ logEntry log entry = .ok log) ∨
      (entry.index = log.lastIndex + 1 ∧
        logEntry log entry = .ok { log with entries := log.entries ++ [entry] }) ∨
      (log.lastIndex + 1 < entry.index ∧ ∃ e, logEntry log entry = .error e) := by
  unfold logEntry
  split_ifs with hlt
  · right
    by_cases hnext : entry.index = log.lastIndex + 1
    · left
      rw [appendEntry_next hnext]
      exact ⟨hnext, rfl⟩
    · right
      refine ⟨by omega, ?_⟩
      unfold appendEntry
      rw [if_neg (by omega), if_pos hnext]
      exact ⟨_, rfl⟩
  · exact Or.inl ⟨not_lt.mp hlt, rfl⟩

/-- What has been recovered so far. -/
structure Holds (s : Recovered) (log : RaftLog) (sm : ReplicatedStateMachine) : Prop where
  raftLog : s.raftLog = some log
  stateMachine : s.stateMachine = some sm

theorem Holds.tally {out : Recovered × Except PyError Unit} (h : Holds out.1 log sm) : Holds (tally out) log sm := by
  obtain ⟨s, outcome⟩ := out
  cases outcome with
  | ok | error e => exact ⟨h.raftLog, h.stateMachine⟩

theorem Holds.commitEntry (hs : Holds s log sm) (clock : Clock) (entry : LogEntry) :
    Holds (s.commitEntry clock entry).1
      ((log.advanceCommitIndex entry.index).markApplied entry.index) (sm.applyCommand clock entry).1 := by
  unfold Recovered.commitEntry
  rw [hs.raftLog, hs.stateMachine]
  exact ⟨rfl, rfl⟩

theorem replayMove_entry (clock times : Clock) (hs : Holds s log sm)
    (hkind : record.recordType = .entry) (hlast : 0 ≤ log.lastIndex) :
    ∃ log' sm', ReplayMove clock times record log sm log' sm' (applies times s record) ∧
      Holds (s.replayEntry clock (times record.seqNo) record).1 log' sm' := by
  unfold replayEntry applies
  rw [hkind]
  cases hentry : record.entry (times record.seqNo) with
  | error e =>
    refine ⟨log, sm, .keeps fun entry _ hok => ?_, hs⟩
    cases hentry.symm.trans hok
  | ok entry =>
    dsimp only
    rw [logged, hs.raftLog]
    dsimp only
    cases hlogged : logEntry log entry with
    | error e =>
      refine ⟨log, sm, .keeps fun other _ hok => ?_, hs⟩
      obtain rfl := Except.ok.inj (hentry.symm.trans hok)
      rcases logEntry_cases log entry hlast with ⟨-, hok⟩ | ⟨-, hok⟩ | ⟨hbeyond, -⟩
      · cases hlogged.symm.trans hok
      · cases hlogged.symm.trans hok
      · exact hbeyond
    | ok log' =>
      have hlog : Holds { s with raftLog := some log' } log' sm := ⟨rfl, hs.stateMachine⟩
      cases hcommitted : record.committed with
      | false => exact ⟨log', sm, .logs entry log' hcommitted hlogged, hlog⟩
      | true =>
        exact ⟨_, _, .applies entry log' hkind hentry hcommitted hlogged, hlog.commitEntry clock entry⟩

theorem replayMove (clock times : Clock) (hs : Holds s log sm)
    (hkind : record.recordType = .entry ∨ record.recordType = .commitMarker) (hlast : 0 ≤ log.lastIndex) :
    ∃ log' sm', ReplayMove clock times record log sm log' sm' (applies times s record) ∧
      Holds (s.replay clock times record) log' sm' := by
  have hseq : Holds { s with lastSeqNo := max s.lastSeqNo record.seqNo } log sm :=
    ⟨hs.raftLog, hs.stateMachine⟩
  unfold replay
  rcases hkind with hkind | hkind
  · rw [hkind]
    obtain ⟨log', sm', hmove, hholds⟩ := replayMove_entry clock times hseq hkind hlast
    exact ⟨log', sm', hmove, hholds.tally⟩
  · have happlies : applies times s record = [] := by
      unfold applies
      rw [hkind]
    rw [hkind, happlies]
    unfold replayCommitMarker
    cases hindex : ((record.get? "commit_index").getD (.int 0)).toInt with
    | error e =>
      refine ⟨log, sm, .keeps fun entry hentry _ => ?_, hseq.tally⟩
      cases hkind.symm.trans hentry
    | ok i =>
      refine ⟨log.advanceCommitIndex i, sm, .marks i hkind, Holds.tally ⟨?_, hs.stateMachine⟩⟩
      rw [hs.raftLog]
      rfl

/-! ### In order -/

/-- A log that has not been compacted, with its entries at their indexes. -/
structure Sound (log : RaftLog) : Prop where
  contiguous : log.Contiguous
  uncompacted : log.snapshotLastIndex = 0
  applied : 0 ≤ log.lastApplied
  committed : log.lastApplied ≤ log.commitIndex
  known : log.commitIndex ≤ log.lastIndex

theorem sound_empty : Sound .empty := ⟨contiguous_empty, rfl, le_rfl, le_rfl, le_rfl⟩

theorem Sound.lastIndex (h : Sound log) : log.lastIndex = log.entries.length := by
  rw [lastIndex_eq h.contiguous, h.uncompacted, zero_add]

theorem Sound.append (h : Sound log) (hnext : entry.index = log.lastIndex + 1) :
    Sound { log with entries := log.entries ++ [entry] } where
  contiguous := by
    refine ContiguousFrom.append h.contiguous (ContiguousFrom.singleton ?_)
    rw [hnext, h.lastIndex, h.uncompacted]
    omega
  uncompacted := h.uncompacted
  applied := h.applied
  committed := h.committed
  known := by
    have hlast : RaftLog.lastIndex { log with entries := log.entries ++ [entry] } = entry.index := by
      simp [RaftLog.lastIndex]
    exact h.known.trans (by omega)

theorem Sound.logEntry (h : Sound log) (hlogged : Recovered.logEntry log entry = .ok log') :
    Sound log' ∧ log.entries <+: log'.entries ∧ entry.index ≤ log'.lastIndex := by
  have hlast : 0 ≤ log.lastIndex := by
    rw [h.lastIndex]
    omega
  rcases logEntry_cases log entry hlast with ⟨hle, hok⟩ | ⟨hnext, hok⟩ | ⟨-, e, herror⟩
  · obtain rfl := Except.ok.inj (hok.symm.trans hlogged)
    exact ⟨h, List.prefix_rfl, hle⟩
  · obtain rfl := Except.ok.inj (hok.symm.trans hlogged)
    refine ⟨h.append hnext, List.prefix_append _ _, ?_⟩
    simp [RaftLog.lastIndex]
  · cases herror.symm.trans hlogged

def fold (clock : Clock) (entries : List LogEntry) : ReplicatedStateMachine :=
  entries.foldl (fun sm entry => (sm.applyCommand clock entry).1) .empty

/-- The entries `1..last_applied` of a log. -/
def appliedPart (log : RaftLog) : List LogEntry := log.entries.take log.lastApplied.toNat

/-- **Log and state agree**: what was applied are the entries `1..last_applied` of the log, each of them
once, and the state machine is the fold over them. -/
def Agrees (clock : Clock) (s : Recovered) (applied : List LogEntry) : Prop :=
  ∃ log sm, Holds s log sm ∧ applied = appliedPart log ∧ sm = fold clock (appliedPart log)

/-- The entry that a committed record carries. -/
def carried (times : Clock) (record : WALRecord) : Option LogEntry :=
  if record.recordType = .entry ∧ record.committed then (record.entry (times record.seqNo)).toOption
  else none

theorem mem_carried :
    entry ∈ carried times record ↔ record.recordType = .entry ∧ record.committed = true ∧
      record.entry (times record.seqNo) = .ok entry := by
  unfold carried
  split_ifs with hcommitted
  · cases record.entry (times record.seqNo) with
    | error e => simp [Except.toOption]
    | ok other => simp [Except.toOption, hcommitted, eq_comm]
  · simp only [Option.mem_def, reduceCtorEq, false_iff]
    exact fun h => hcommitted ⟨h.1, h.2.1⟩

/-- A committed record that is not beyond the end of the log carries the entry that comes next after the
applied ones, and the log does not hold another one in its place. -/
def InOrder (times : Clock) (s : Recovered) (record : WALRecord) : Prop :=
  ∀ log ∈ s.raftLog, ∀ entry ∈ carried times record,
    log.lastIndex + 1 < entry.index ∨
      entry.index = log.lastApplied + 1 ∧
        (log.lastIndex < entry.index ∨ log.getEntry entry.index = some entry)
deriving Decidable

def Good (clock : Clock) (s : Recovered) (applied : List LogEntry) : Prop :=
  ∃ log sm, Holds s log sm ∧ Sound log ∧ applied = appliedPart log ∧ sm = fold clock applied

/-- An entry was applied out of its place, or in that of another one. -/
def Spoilt (s : Recovered) (applied : List LogEntry) : Prop :=
  ∃ log sm, Holds s log sm ∧ Sound log ∧ ∃ (k : Nat) (entry : LogEntry),
    applied[k]? = some entry ∧
      (entry.index ≠ k + 1 ∨ ∃ other, log.entries[k]? = some other ∧ other ≠ entry)

theorem Sound.advanceCommitIndex (h : Sound log) (i : Int) : Sound (log.advanceCommitIndex i) := by
  rw [advanceCommitIndex_eq]
  have hknown := h.known
  have hcommitted := h.committed
  refine ⟨h.contiguous, h.uncompacted, h.applied, ?_, ?_⟩
  · dsimp only
    omega
  · change max log.commitIndex (min i log.lastIndex) ≤ log.lastIndex
    omega

theorem Sound.apply (h : Sound log) (hle : entry.index ≤ log.lastIndex) :
    Sound ((log.advanceCommitIndex entry.index).markApplied entry.index) ∧
      ((log.advanceCommitIndex entry.index).markApplied entry.index).entries = log.entries ∧
      ((log.advanceCommitIndex entry.index).markApplied entry.index).lastApplied =
        max log.lastApplied entry.index := by
  have hadvanced := h.advanceCommitIndex entry.index
  rw [advanceCommitIndex_eq] at hadvanced ⊢
  unfold markApplied
  have happlied := h.applied
  dsimp only
  split_ifs with hnew
  · refine ⟨⟨hadvanced.contiguous, hadvanced.uncompacted, ?_, ?_, hadvanced.known⟩, rfl, ?_⟩ <;>
      dsimp only <;> omega
  · exact ⟨hadvanced, rfl, (max_eq_left (not_lt.mp hnew)).symm⟩

theorem logEntry_lastApplied (h : logEntry log entry = .ok log') : log'.lastApplied = log.lastApplied := by
  unfold logEntry at h
  split_ifs at h
  · rcases appendEntry_cases log entry with ⟨e, herror⟩ | ⟨entry', -, -, hok⟩
    · rw [herror] at h
      cases h
    · rw [hok] at h
      cases h
      rfl
  · cases h
    rfl

theorem ReplayMove.sound {sm' : ReplicatedStateMachine}
    (hmove : ReplayMove clock times record log sm log' sm' applied) (h : Sound log) :
    Sound log' ∧ log.entries <+: log'.entries := by
  cases hmove with
  | keeps => exact ⟨h, List.prefix_rfl⟩
  | marks i kind =>
    refine ⟨h.advanceCommitIndex i, ?_⟩
    rw [advanceCommitIndex_eq]
  | logs entry log' uncommitted logged =>
    obtain ⟨hsound, hgrows, -⟩ := h.logEntry logged
    exact ⟨hsound, hgrows⟩
  | applies entry log' kind carried committed logged =>
    obtain ⟨hsound, hgrows, hle⟩ := h.logEntry logged
    obtain ⟨hsound', hentries, -⟩ := hsound.apply hle
    exact ⟨hsound', hentries ▸ hgrows⟩

theorem Spoilt.stays (h : Spoilt s applied) (hkind : record.recordType = .entry ∨ record.recordType = .commitMarker) :
    Spoilt (s.replay clock times record) (applied ++ applies times s record) := by
  obtain ⟨log, sm, hs, hsound, k, entry, hk, hwrong⟩ := h
  obtain ⟨log', sm', hmove, hs'⟩ := replayMove clock times hs hkind (by rw [hsound.lastIndex]; omega)
  obtain ⟨hsound', hgrows⟩ := hmove.sound hsound
  refine ⟨log', sm', hs', hsound', k, entry, ?_, hwrong.imp_right ?_⟩
  · rwa [List.getElem?_append_left (List.getElem?_eq_some_iff.mp hk).1]
  · rintro ⟨other, hother, hne⟩
    exact ⟨other, getElem?_of_isPrefix hgrows hother, hne⟩

theorem Agrees.not_spoilt (h : Agrees clock s applied) : ¬ Spoilt s applied := by
  rintro ⟨log, sm, hs, hsound, k, entry, hk, hwrong⟩
  obtain ⟨log', sm', hs', rfl, -⟩ := h
  obtain rfl := Option.some.inj (hs.raftLog.symm.trans hs'.raftLog)
  rw [appliedPart, List.getElem?_take] at hk
  split_ifs at hk
  rcases hwrong with hindex | ⟨other, hother, hne⟩
  · have := hsound.contiguous k entry hk
    rw [hsound.uncompacted] at this
    omega
  · exact hne (Option.some.inj (hother.symm.trans hk))

theorem Sound.length_appliedPart (h : Sound log) : (appliedPart log).length = log.lastApplied.toNat := by
  have hlast := h.lastIndex
  have hknown := h.known
  have hcommitted := h.committed
  rw [appliedPart, List.length_take]
  omega

theorem fold_append (clock : Clock) (entries : List LogEntry) (entry : LogEntry) :
    fold clock (entries ++ [entry]) = ((fold clock entries).applyCommand clock entry).1 := by
  rw [fold, List.foldl_append]
  rfl

theorem Good.keeps {s' : Recovered} (hs' : Holds s' log' sm) (hsound : Sound log) (hsound' : Sound log')
    (happlied : applied = appliedPart log) (hsm : sm = fold clock applied)
    (hgrows : log.entries <+: log'.entries) (hlast : log'.lastApplied = log.lastApplied) :
    Good clock s' (applied ++ []) := by
  refine ⟨log', sm, hs', hsound', ?_, by rwa [List.append_nil]⟩
  have hlen := hsound.length_appliedPart
  rw [List.append_nil, happlied, appliedPart, appliedPart, hlast]
  rw [appliedPart, List.length_take] at hlen
  obtain ⟨rest, hrest⟩ := hgrows
  rw [← hrest, List.take_append_of_le_length (by omega)]

theorem Sound.getEntry (h : Sound log) {i : Int} (hi : 0 < i) : log.getEntry i = log.entries[(i - 1).toNat]? := by
  rw [getEntry_eq, h.uncompacted, if_neg (by omega), sub_zero]

theorem Sound.placed (h : Sound log) (hlogged : Recovered.logEntry log entry = .ok log')
    (horder : log.lastIndex + 1 < entry.index ∨ entry.index = log.lastApplied + 1 ∧
      (log.lastIndex < entry.index ∨ log.getEntry entry.index = some entry)) :
    entry.index = log.lastApplied + 1 ∧ log'.entries[log.lastApplied.toNat]? = some entry := by
  have hlast := h.lastIndex
  have happlied := h.applied
  rcases logEntry_cases log entry (by omega) with ⟨hle, hok⟩ | ⟨hnext, hok⟩ | ⟨-, e, herror⟩
  · obtain rfl := Except.ok.inj (hok.symm.trans hlogged)
    obtain ⟨hindex, hat⟩ := horder.resolve_left (by omega)
    have hentry := hat.resolve_left (by omega)
    rw [h.getEntry (by omega), hindex, add_sub_cancel_right] at hentry
    exact ⟨hindex, hentry⟩
  · obtain rfl := Except.ok.inj (hok.symm.trans hlogged)
    obtain ⟨hindex, -⟩ := horder.resolve_left (by omega)
    refine ⟨hindex, ?_⟩
    rw [show log.lastApplied.toNat = log.entries.length by omega]
    simp
  · cases herror.symm.trans hlogged

theorem Good.replay (h : Good clock s applied)
    (hkind : record.recordType = .entry ∨ record.recordType = .commitMarker) (horder : InOrder times s record) :
    Good clock (s.replay clock times record) (applied ++ applies times s record) := by
  obtain ⟨log, sm, hs, hsound, happlied, hsm⟩ := h
  obtain ⟨log', sm', hmove, hs'⟩ := replayMove clock times hs hkind (by rw [hsound.lastIndex]; omega)
  obtain ⟨hsound', hgrows⟩ := hmove.sound hsound
  generalize applies times s record = new at hmove
  cases hmove with
  | keeps => exact Good.keeps hs' hsound hsound happlied hsm List.prefix_rfl rfl
  | marks i kind =>
    refine Good.keeps hs' hsound hsound' happlied hsm hgrows ?_
    rw [advanceCommitIndex_eq]
  | logs entry log' uncommitted logged =>
    exact Good.keeps hs' hsound hsound' happlied hsm hgrows (logEntry_lastApplied logged)
  | applies entry log₁ kind carried committed logged =>
    obtain ⟨hsound₁, hgrows₁, hle⟩ := hsound.logEntry logged
    obtain ⟨-, hentries, hlast⟩ := hsound₁.apply hle
    obtain ⟨hindex, hplace⟩ :=
      hsound.placed logged (horder log hs.raftLog entry (mem_carried.mpr ⟨kind, committed, carried⟩))
    refine ⟨_, _, hs', hsound', ?_, by rw [fold_append, ← hsm]⟩
    have happlied₀ := hsound.applied
    have hnext : (max log₁.lastApplied entry.index).toNat = log.lastApplied.toNat + 1 := by
      rw [logEntry_lastApplied logged]
      omega
    have hpart : log.entries.take log.lastApplied.toNat = log₁.entries.take log.lastApplied.toNat := by
      obtain ⟨rest, hrest⟩ := hgrows₁
      have hlen := hsound.length_appliedPart
      rw [appliedPart, List.length_take] at hlen
      rw [← hrest, List.take_append_of_le_length (by omega)]
    rw [appliedPart, hentries, hlast, hnext, List.take_add_one, hplace, happlied, appliedPart, hpart]
    rfl

theorem Good.spoils (h : Good clock s applied)
    (hkind : record.recordType = .entry ∨ record.recordType = .commitMarker) (horder : ¬ InOrder times s record) :
    Spoilt (s.replay clock times record) (applied ++ applies times s record) := by
  obtain ⟨log, sm, hs, hsound, happlied, hsm⟩ := h
  obtain ⟨log', sm', hmove, hs'⟩ := replayMove clock times hs hkind (by rw [hsound.lastIndex]; omega)
  obtain ⟨hsound', hgrows⟩ := hmove.sound hsound
  simp only [InOrder, not_forall] at horder
  obtain ⟨log₀, hlog₀, entry, hmem, hwrong⟩ := horder
  obtain rfl := Option.some.inj (hs.raftLog.symm.trans hlog₀)
  obtain ⟨hentry, hcommitted, hcarried⟩ := mem_carried.mp hmem
  rw [not_or, not_and, not_or] at hwrong
  obtain ⟨hnear, hplace⟩ := hwrong
  refine ⟨log', sm', hs', hsound', log.lastApplied.toNat, entry, ?_, ?_⟩
  · -- the entry is applied after all those that were applied before
    generalize applies times s record = new at hmove
    cases hmove with
    | keeps undone => exact absurd (undone entry hentry hcarried) hnear
    | marks i kind => cases kind.symm.trans hentry
    | logs other log' uncommitted logged => cases uncommitted.symm.trans hcommitted
    | applies other log₁ kind carried committed logged =>
      obtain rfl := Except.ok.inj (carried.symm.trans hcarried)
      rw [happlied, ← hsound.length_appliedPart, List.getElem?_concat_length]
  · have happlied₀ := hsound.applied
    by_cases hindex : entry.index = log.lastApplied + 1
    · right
      obtain ⟨hle, hother⟩ := hplace hindex
      rw [hsound.getEntry (by omega), hindex, add_sub_cancel_right] at hother
      have hlt : log.lastApplied.toNat < log.entries.length := by
        have hlast := hsound.lastIndex
        omega
      obtain ⟨other, hat⟩ : ∃ other, log.entries[log.lastApplied.toNat]? = some other :=
        ⟨_, List.getElem?_eq_getElem hlt⟩
      refine ⟨other, getElem?_of_isPrefix hgrows hat, ?_⟩
      rintro rfl
      exact hother hat
    · omega

/-- **The recovered log and the recovered state agree** exactly if every committed record, when it is
replayed, is in order. -/
theorem recovered_log_agrees_iff (clock times : Clock) (records : List WALRecord)
    (hkinds : ∀ record ∈ records, record.recordType = .entry ∨ record.recordType = .commitMarker) :
    Agrees clock (recover clock times records (some .empty) (some .empty))
        (emitted (fun s record => s.replay clock times record) (applies times)
          (start (some .empty) (some .empty)) records) ↔
      Along (fun s record => s.replay clock times record) (InOrder times)
        (start (some .empty) (some .empty)) records := by
  have hstart : Good clock (start (some .empty) (some .empty)) [] :=
    ⟨.empty, .empty, ⟨rfl, rfl⟩, sound_empty, rfl, rfl⟩
  have hend := Along.good_or_spoilt (P := InOrder times) (Good clock) Spoilt
    (fun record hr s out h => h.replay (hkinds record hr))
    (fun record hr s out h => h.spoils (hkinds record hr))
    (fun record hr s out h => h.stays (hkinds record hr)) hstart
  rw [List.nil_append] at hend
  rcases hend with ⟨halong, log, sm, hs, -, happlied, hsm⟩ | ⟨hnot, hspoilt⟩
  · exact iff_of_true ⟨log, sm, hs, happlied, happlied ▸ hsm⟩ halong
  · exact iff_of_false (fun h => h.not_spoilt hspoilt) hnot

def counting (seqNo index : Int) (committed : Bool) : WALRecord :=
  { seqNo, recordType := .entry,
    payload :=
      [("entry", .dict
          [("index", .int index), ("term", .int 1), ("command_type", .str "INCREMENT"),
            ("key", .str "x"), ("value", .int 1), ("client_id", .none), ("timestamp", .float 0),
            ("fencing_token", .none), ("extra_data", .dict [])]),
        ("committed", .bool committed)],
    timestamp := 0, crc32 := 0 }

def commitMarker (seqNo commitIndex : Int) : WALRecord :=
  { seqNo, recordType := .commitMarker, payload := [("commit_index", .int commitIndex)],
    timestamp := 0, crc32 := 0 }

theorem recovered_log_agrees_in_order :
    let records := [counting 1 1 false, counting 2 1 true, commitMarker 3 1, counting 4 2 true,
      counting 5 9 true, counting 6 3 false, commitMarker 7 3]
    Agrees 0 (recover 0 0 records (some .empty) (some .empty))
      (emitted (fun s record => s.replay 0 0 record) (applies 0)
        (start (some .empty) (some .empty)) records) :=
  (recovered_log_agrees_iff 0 0 _ (by decide)).mpr (by decide +kernel)

theorem Agrees.appliedPart_eq (h : Agrees clock s applied) : s.raftLog.map appliedPart = some applied := by
  obtain ⟨log, sm, hs, rfl, -⟩ := h
  rw [hs.raftLog]
  rfl

/-- A record that is there twice is applied twice, and an entry that was not committed is passed over. -/
theorem recovered_log_disagrees :
    let applied := emitted (fun s record => s.replay 0 0 record) (applies 0)
      (start (some .empty) (some .empty))
    let twice := [counting 1 1 true, counting 2 1 true]
    let skipping := [counting 1 1 false, counting 2 2 true]
    ¬ Agrees 0 (recover 0 0 twice (some .empty) (some .empty)) (applied twice) ∧
      ¬ Agrees 0 (recover 0 0 skipping (some .empty) (some .empty)) (applied skipping) ∧
      ((recover 0 0 twice (some .empty) (some .empty)).stateMachine.bind fun sm => sm.get "x") =
        some (.int 2) :=
  ⟨fun h => absurd h.appliedPart_eq (by decide +kernel),
    fun h => absurd h.appliedPart_eq (by decide +kernel), by decide +kernel⟩

end Recovered

end MeshWeaver
