import MeshWeaver.Wal.Runs

/-!
# Torn writes

A crash leaves the last line of the active segment cut short. The segment is then opened for appending as it
is, and the next record continues the torn line: no reader gets behind that line. The records are safe only
where the torn line is empty or ends a full segment, so that the next record starts a new file.
-/

namespace MeshWeaver

open Lib Files
open Lib.Files (records readAll appendLine appendLines content Complete Ended IsLine)
open Lib.Json (FloatFormat)

variable (fmt : FloatFormat Rat)

/-- A log behind a crash: of the last line of the active segment, `torn` was written. -/
structure TornLog where
  segments : List (Nat × List WALRecord)
  segmentId : Nat
  kept : List WALRecord
  last : WALRecord
  torn : Text
  ordered : (segments.map Prod.fst ++ [segmentId]).Pairwise (· < ·)
  segmentId_le : segmentId ≤ 999999
  sealed_segments : ∀ segment ∈ segments, ∀ record ∈ segment.2, record.Sealed fmt
  sealed_kept : ∀ record ∈ kept, record.Sealed fmt
  sealed_last : last.Sealed fmt
  cut : torn <+: last.text fmt

namespace TornLog

variable {fmt} (log : TornLog fmt)

def text : Text := content (WALRecord.text fmt) log.kept ++ log.torn

def files : List (Nat × Text) := filesOf fmt log.segments ++ [(log.segmentId, log.text)]

theorem map_fst_files : log.files.map Prod.fst = log.segments.map Prod.fst ++ [log.segmentId] := by
  rw [files, filesOf, List.map_append, List.map_map]
  rfl

def entries : List (Text × Text) := log.files.map fun file => (segmentFile file.1, file.2)

theorem nodup_entries : (log.entries.map Prod.fst).Nodup := by
  have hids : (log.files.map Prod.fst).Nodup := by
    rw [log.map_fst_files]
    exact log.ordered.imp fun hlt => hlt.ne
  have hnames : log.entries.map Prod.fst = (log.files.map Prod.fst).map segmentFile := by
    rw [entries, List.map_map, List.map_map]
    rfl
  rw [hnames]
  exact hids.map segmentFile_injective

def directory : Directory := ⟨log.entries, log.nodup_entries⟩

theorem hasFiles : HasFiles log.directory log.files := ⟨rfl, log.map_fst_files ▸ log.ordered⟩

theorem ids : ∀ file ∈ log.files, file.1 ≤ 999999 := by
  intro file hfile
  have hle := log.segmentId_le
  rcases List.mem_append.mp hfile with hother | hlast
  · exact (log.hasFiles.lt_last hother).le.trans hle
  · rwa [List.mem_singleton.mp hlast]

/-- The complete records from before the crash, among them one that lacks nothing but its newline. -/
def complete : List WALRecord :=
  log.segments.flatMap Prod.snd ++ log.kept ++ if log.torn = log.last.text fmt then [log.last] else []

/-! ### What is read of the files -/

variable (now : Rat)

theorem records_torn : records (WALRecord.read fmt true now) log.torn =
    if log.torn = log.last.text fmt then [log.last] else [] := by
  split_ifs with hwhole
  · rw [hwhole]
    exact records_line log.sealed_last.isLine_text (log.sealed_last.read_text true now)
  · by_cases hempty : log.torn = []
    · rw [hempty]
      rfl
    · have hunread := records_unread (Json.strip_torn log.cut hempty).1
        (fun c hc => log.sealed_last.isLine_text.unbroken c (log.cut.subset hc))
        (log.sealed_last.read_torn log.cut hempty hwhole true now) (Or.inl rfl)
      rwa [List.append_nil] at hunread

theorem records_text : records (WALRecord.read fmt true now) log.text =
    log.kept ++ if log.torn = log.last.text fmt then [log.last] else [] := by
  rw [text, records_content_of_sealed log.sealed_kept, log.records_torn]

theorem ended_append (htorn : log.torn ≠ []) {record : WALRecord} (hrecord : record.Sealed fmt) :
    Ended (WALRecord.read fmt true now) (log.text ++ (record.text fmt ++ ['\n'])) ∧
      records (WALRecord.read fmt true now) (log.text ++ (record.text fmt ++ ['\n'])) = log.kept := by
  have hline := Json.isLine_torn_append log.cut htorn log.sealed_last.proper hrecord.proper
  have hnone := log.sealed_last.read_torn_append log.cut htorn hrecord true now
  have hrest (rest : Text) : records (WALRecord.read fmt true now)
      (log.text ++ (record.text fmt ++ ['\n']) ++ rest) = log.kept := by
    have hunread := records_unread (hline.strip.symm ▸ hline.ne_nil) hline.unbroken
      (hline.strip.symm ▸ hnone) (Or.inr ⟨rest, rfl⟩)
    rw [show log.text ++ (record.text fmt ++ ['\n']) ++ rest =
      content (WALRecord.text fmt) log.kept ++ (log.torn ++ record.text fmt ++ '\n' :: rest) by simp [text],
      records_content_of_sealed log.sealed_kept, WALRecord.text, hunread, List.append_nil]
  have hnil := hrest []
  rw [List.append_nil] at hnil
  exact ⟨fun rest => (hrest rest).trans hnil.symm, hnil⟩

end TornLog

/-! ### Appending behind a crash -/

namespace WALEngine

/-- The call appends a record that can be stored. -/
def Appends : WALCall → Prop
  | .append now _ payload => WALRecord.Storable fmt payload ∧ fmt.Exact now
  | _ => False

variable {fmt} {config : StorageConfig} {e : WALEngine} {files : List (Nat × Text)}

theorem Writes.appends (h : e.Writes files) (henabled : config.enableWal = true) {calls : List WALCall}
    (hcalls : ∀ call ∈ calls, Appends fmt call) :
    (∀ record ∈ e.appended fmt config calls, record.Sealed fmt) ∧
      (e.appended fmt config calls = [] ↔ calls = []) ∧
      (e.after fmt config calls).Writes
        (appendLines config.full (WALRecord.text fmt) files (e.appended fmt config calls)) := by
  induction calls generalizing e files with
  | nil => exact ⟨fun _ hrecord => absurd hrecord List.not_mem_nil, ⟨fun _ => rfl, fun _ => rfl⟩, h⟩
  | cons call calls ih =>
    have hcall := hcalls call List.mem_cons_self
    cases call with
    | append now recordType payload =>
      obtain ⟨record, hcreate, hsealed, -⟩ :=
        WALRecord.create_eq_ok hcall.1 hcall.2 (e.currentSeq + 1) recordType
      obtain ⟨e', happend, hwrites, -⟩ := h.append fmt config now henabled hcreate
      obtain ⟨hrest, -, hafter⟩ := ih hwrites fun call hcall => hcalls call (List.mem_cons_of_mem _ hcall)
      have hafter_eq : e.after fmt config (.append now recordType payload :: calls) =
          e'.after fmt config calls := by
        rw [after, run_cons, step, happend]
        rfl
      have happended : e.appended fmt config (.append now recordType payload :: calls) =
          record :: e'.appended fmt config calls := by
        rw [appended, emitted, appends, step, happend]
        rfl
      rw [hafter_eq, happended]
      exact ⟨List.forall_mem_cons.mpr ⟨hsealed, hrest⟩, by simp, hafter⟩
    | _ => exact hcall.elim

variable (fmt config) in
theorem directory_restart (h : HasFiles e.directory files) (hne : files ≠ []) (renewed : Bool) (now : Rat) :
    (e.after fmt config (restart renewed now)).directory = e.directory := by
  have hstop := (stop_eq e).1
  cases renewed with
  | false => exact (directory_start fmt now (hstop ▸ h) hne).trans hstop
  | true =>
    exact (directory_start fmt now (show HasFiles (new e.stop.directory).directory files from hstop ▸ h)
      hne).trans hstop

end WALEngine

namespace TornLog

open WALEngine

variable {fmt} (log : TornLog fmt) (config : StorageConfig) (calls : List WALCall) (started : Rat)

def engine : WALEngine := (new log.directory).start fmt started

/-- After a start, some appends and a restart, all complete records are yielded and then all appended. -/
def Recovers (renewed : Bool) (restarted now : Rat) : Prop :=
  (((log.engine started).after fmt config (calls ++ restart renewed restarted)).iterAllRecords fmt now true).2 =
    log.complete ++ (log.engine started).appended fmt config calls

theorem writes_engine : (log.engine started).Writes log.files := by
  obtain ⟨e', he', hwrites, -⟩ := start_concat fmt started
    (show HasFiles (new log.directory).directory _ from log.hasFiles) log.ids
  rwa [engine, he']

variable {config calls} {rs : List WALRecord}

theorem readAll_appendLines_files (now : Rat) :
    readAll (WALRecord.read fmt true now) (appendLines config.full (WALRecord.text fmt) log.files rs) =
      log.segments.flatMap Prod.snd ++ readAll (WALRecord.read fmt true now)
        (appendLines config.full (WALRecord.text fmt) [(log.segmentId, log.text)] rs) := by
  rw [files, appendLines_append _ _ _ (List.cons_ne_nil _ _), readAll_append,
    readAll_filesOf log.sealed_segments]

theorem readAll_of_safe (hrs : ∀ record ∈ rs, record.Sealed fmt)
    (hsafe : log.torn = [] ∨ rs = [] ∨ config.full log.text = true) (now : Rat) :
    readAll (WALRecord.read fmt true now) (appendLines config.full (WALRecord.text fmt) log.files rs) =
      log.complete ++ rs := by
  have hreadable := readable_of_sealed hrs true now
  have htext := log.records_text now
  rw [log.readAll_appendLines_files, complete, List.append_assoc (log.segments.flatMap Prod.snd), ← htext,
    List.append_assoc]
  refine congrArg _ ?_
  rcases hsafe with hempty | rfl | hfull
  · have hcomplete : Complete (WALRecord.read fmt true now) log.text := by
      rw [text, hempty, List.append_nil]
      exact .content (readable_of_sealed log.sealed_kept true now)
    have hlast : [(log.segmentId, log.text)].getLast? = some (log.segmentId, log.text) := rfl
    rw [readAll_appendLines config.full hreadable hlast hcomplete, readAll_singleton]
  · rw [List.append_nil]
    exact readAll_singleton _ _
  · cases rs with
    | nil =>
      rw [List.append_nil]
      exact readAll_singleton _ _
    | cons record rs =>
      -- the first record starts a new file
      obtain ⟨hline, hread⟩ := hreadable record List.mem_cons_self
      have hnew : appendLines config.full (WALRecord.text fmt) [(log.segmentId, log.text)] (record :: rs) =
          appendLines config.full (WALRecord.text fmt)
            ([(log.segmentId, log.text)] ++ [(log.segmentId + 1, record.text fmt ++ ['\n'])]) rs := by
        rw [appendLines, List.foldl_cons, appendLine, if_pos hfull]
        rfl
      rw [hnew, appendLines_append _ _ _ (List.cons_ne_nil _ _), readAll_append,
        readAll_appendLines config.full (fun r hr => hreadable r (List.mem_cons_of_mem _ hr)) rfl
          (Complete.of_line hline hread), readAll_singleton, readAll_singleton,
        records_cons hline hread]
      rfl

theorem length_readAll_of_torn {record : WALRecord}
    (hrs : ∀ r ∈ record :: rs, r.Sealed fmt) (htorn : log.torn ≠ []) (hfull : config.full log.text = false)
    (now : Rat) :
    (readAll (WALRecord.read fmt true now)
      (appendLines config.full (WALRecord.text fmt) log.files (record :: rs))).length ≤
      (log.segments.flatMap Prod.snd).length + log.kept.length + rs.length := by
  obtain ⟨hended, hrecords⟩ := log.ended_append now htorn (hrs record List.mem_cons_self)
  have hle := length_readAll_appendLines config.full
    (readable_of_sealed (fun r hr => hrs r (List.mem_cons_of_mem _ hr)) true now) log.segmentId hended
  have hfirst : appendLines config.full (WALRecord.text fmt) [(log.segmentId, log.text)] (record :: rs) =
      appendLines config.full (WALRecord.text fmt)
        [(log.segmentId, log.text ++ (record.text fmt ++ ['\n']))] rs := by
    rw [appendLines, List.foldl_cons, appendLine, if_neg (by rw [hfull]; exact Bool.false_ne_true)]
    rfl
  rw [hrecords] at hle
  rw [log.readAll_appendLines_files, hfirst, List.length_append]
  omega

/-- **What is written behind a torn line is recovered only if it does not continue that line.** -/
theorem recovers_iff (log : TornLog fmt) (config : StorageConfig) (henabled : config.enableWal = true)
    (calls : List WALCall) (hcalls : ∀ call ∈ calls, Appends fmt call) (started : Rat) (renewed : Bool)
    (restarted now : Rat) :
    (log.Recovers config calls started renewed restarted now →
      log.torn = [] ∨ calls = [] ∨ config.full log.text = true) ∧
    (((log.engine started).after fmt config calls).SixDigits →
      log.torn = [] ∨ calls = [] ∨ config.full log.text = true →
      log.Recovers config calls started renewed restarted now) := by
  obtain ⟨hsealed, hnone, hwrites⟩ := (log.writes_engine started).appends henabled hcalls
  set rs := (log.engine started).appended fmt config calls with hrs
  have hne : appendLines config.full (WALRecord.text fmt) log.files rs ≠ [] := by
    obtain ⟨file, segment, hlast, -⟩ := hwrites.active
    rintro hnil
    rw [hnil] at hlast
    cases hlast
  have hdirectory := directory_restart fmt config hwrites.files hne renewed restarted
  have hafter : (log.engine started).after fmt config (calls ++ restart renewed restarted) =
      ((log.engine started).after fmt config calls).after fmt config (restart renewed restarted) :=
    Lib.run_append _ _ _ _
  have hfiles : HasFiles ((log.engine started).after fmt config (calls ++ restart renewed restarted)).directory
      (appendLines config.full (WALRecord.text fmt) log.files rs) := by
    rw [hafter, hdirectory]
    exact hwrites.files
  constructor
  · intro hrecovers
    by_contra hunsafe
    rw [not_or, not_or, ← hnone, Bool.not_eq_true] at hunsafe
    obtain ⟨htorn, hsome, hfull⟩ := hunsafe
    obtain ⟨record, rest, hcons⟩ := List.exists_cons_of_ne_nil hsome
    -- fewer records are yielded than were written
    have hlength := (iterAllRecords_perm fmt now hfiles true).length_eq
    rw [hrecovers, ← hrs, hcons] at hlength
    have hle := log.length_readAll_of_torn (hcons ▸ hsealed) htorn hfull now
    rw [← hlength, complete] at hle
    simp only [List.length_append, List.length_cons] at hle
    omega
  · intro hids hsafe
    rw [← hnone] at hsafe
    have hids' := (sixDigits_iff hwrites.files).mp hids
    rw [Recovers, iterAllRecords_eq fmt now hfiles hids', log.readAll_of_safe hsealed hsafe]

def cutSecond : TornLog digitFloats where
  segments := []
  segmentId := 1
  kept := [WALRecord.numbered 1]
  last := WALRecord.numbered 2
  torn := ((WALRecord.numbered 2).text digitFloats).take 30
  ordered := List.pairwise_singleton _ _
  segmentId_le := by decide
  sealed_segments := by simp
  sealed_kept := by
    intro record hrecord
    rw [List.mem_singleton.mp hrecord]
    exact WALRecord.sealed_numbered 1
  sealed_last := WALRecord.sealed_numbered 2
  cut := List.take_prefix _ _

theorem appends_checkpoint : ∀ call ∈ [WALCall.append 2 .checkpoint []], Appends digitFloats call := by
  intro call hcall
  rw [List.mem_singleton.mp hcall]
  exact ⟨⟨rfl, by simp [Value.jsonItems], trivial⟩, 2, by decide, rfl⟩

theorem recovers_full_segment :
    cutSecond.Recovers ⟨100, true⟩ [.append 2 .checkpoint []] 2 true 3 3 :=
  (recovers_iff cutSecond ⟨100, true⟩ rfl [.append 2 .checkpoint []] appends_checkpoint 2 true 3 3).2
    (by decide +kernel) (Or.inr (Or.inr (by decide +kernel)))

/-- The record that is appended behind a torn line is lost. -/
theorem appended_record_lost :
    (((cutSecond.engine 2).after digitFloats ⟨1000, true⟩
        ([.append 2 .checkpoint []] ++ restart true 3)).iterAllRecords digitFloats 3 true).2 =
      cutSecond.complete ∧
    ((cutSecond.engine 2).appended digitFloats ⟨1000, true⟩ [.append 2 .checkpoint []]).length = 1 ∧
    ¬ cutSecond.Recovers ⟨1000, true⟩ [.append 2 .checkpoint []] 2 true 3 3 := by
  unfold Recovers
  decide +kernel

end TornLog

end MeshWeaver
