import MeshWeaver.Wal.Layout

/-!
# The log keeps what is appended

Along every run of appends, rotations, iterations and restarts the files hold the appended records, in
order and numbered from 1, and an engine that was started goes on with the next number: it finds the number
of the last record in whichever file that is, also when the last file is empty.
-/

namespace MeshWeaver

open Lib
open Lib.Files (records readAll appendLine Complete IsLine)
open Lib.Json (FloatFormat)

/-! ### Numbers -/

/-- The numbers of the records increase, from 1 on. -/
@[mk_iff]
structure Increasing (records : List WALRecord) : Prop where
  pairwise : (records.map WALRecord.seqNo).Pairwise (· < ·)
  pos : ∀ record ∈ records, 0 < record.seqNo

theorem lastSeq_append (rs rs' : List WALRecord) :
    lastSeq (rs ++ rs') = if rs' = [] then lastSeq rs else lastSeq rs' := by
  rcases List.eq_nil_or_concat' rs' with rfl | ⟨init, r, rfl⟩
  · rw [List.append_nil, if_pos rfl]
  · rw [if_neg (by simp), lastSeq, lastSeq, ← List.append_assoc, List.getLast?_concat, List.getLast?_concat]

variable {rs : List WALRecord}

theorem increasing_append {rs' : List WALRecord} : Increasing (rs ++ rs') ↔
    Increasing rs ∧ Increasing rs' ∧ ∀ r ∈ rs, ∀ r' ∈ rs', r.seqNo < r'.seqNo := by
  simp only [increasing_iff, List.map_append, List.pairwise_append, List.forall_mem_map, List.forall_mem_append]
  tauto

theorem Increasing.lastSeq_le {rs' : List WALRecord} (h : Increasing (rs ++ rs')) (hne : rs' ≠ []) :
    lastSeq rs ≤ lastSeq rs' := by
  obtain ⟨-, hright, hlt⟩ := increasing_append.mp h
  rcases List.eq_nil_or_concat' rs' with rfl | ⟨init', r', rfl⟩
  · exact absurd rfl hne
  have hr' := List.mem_append_right init' (List.mem_cons_self (a := r') (l := []))
  have hpos := hright.pos r' hr'
  rcases List.eq_nil_or_concat' rs with rfl | ⟨init, r, rfl⟩
  · simp only [lastSeq, List.getLast?_concat, List.getLast?_nil, Option.map_some, Option.map_none,
      Option.getD_some, Option.getD_none]
    omega
  · have hle := hlt r (List.mem_append_right init List.mem_cons_self) r' hr'
    simp only [lastSeq, List.getLast?_concat, Option.map_some, Option.getD_some]
    omega

section
variable {fmt : FloatFormat Rat} {now : Rat}

theorem foldl_latest {files : List (Nat × Text)} {seq : Int} (hseq : 0 ≤ seq)
    (h : Increasing (readAll (WALRecord.read fmt false now) files)) :
    files.foldl (latest fmt now) seq = max seq (lastSeq (readAll (WALRecord.read fmt false now) files)) := by
  induction files using List.reverseRecOn with
  | nil =>
    change seq = max seq (-1)
    omega
  | append_singleton files file ih =>
    rw [Files.readAll_append, Files.readAll_singleton] at h ⊢
    rw [List.foldl_append, ih (increasing_append.mp h).1, lastSeq_append]
    change max (max seq _) (lastSeq (records (WALRecord.read fmt false now) file.2)) = _
    split_ifs with hempty
    · rw [hempty, max_eq_left]
      exact le_trans (by decide : (-1 : Int) ≤ 0) (le_max_of_le_left hseq)
    · rw [max_assoc, max_eq_right (h.lastSeq_le hempty)]

end

/-- The records are numbered from 1 on. -/
def Numbered (records : List WALRecord) : Prop :=
  records.map WALRecord.seqNo = (List.range records.length).map fun i : Nat => (i : Int) + 1

theorem numbered_concat {r : WALRecord} : Numbered (rs ++ [r]) ↔ Numbered rs ∧ r.seqNo = rs.length + 1 := by
  unfold Numbered
  rw [List.map_append, List.length_append, List.length_singleton, List.range_succ, List.map_append]
  constructor
  · intro h
    obtain ⟨hrs, hr⟩ := List.append_inj h (by simp)
    exact ⟨hrs, by simpa using hr⟩
  · rintro ⟨hrs, hr⟩
    rw [hrs]
    simp [hr]

theorem Numbered.increasing (h : Numbered rs) : Increasing rs := by
  constructor
  · rw [h, List.pairwise_map]
    exact List.pairwise_lt_range.imp fun hlt => by omega
  · intro r hr
    have hmem := List.mem_map_of_mem (f := WALRecord.seqNo) hr
    rw [h] at hmem
    obtain ⟨i, -, hi⟩ := List.mem_map.mp hmem
    omega

theorem Numbered.lastSeq (h : Numbered rs) (hne : rs ≠ []) : lastSeq rs = rs.length := by
  rcases List.eq_nil_or_concat' rs with rfl | ⟨init, r, rfl⟩
  · exact absurd rfl hne
  · rw [MeshWeaver.lastSeq, List.getLast?_concat, List.length_append]
    exact (numbered_concat.mp h).2

/-! ### Runs -/

namespace WALEngine

def segmentIds (e : WALEngine) : List Nat := e.directory.keys.filterMap segmentId?

/-- The names sort as the ids do. -/
def SixDigits (e : WALEngine) : Prop := ∀ segmentId ∈ e.segmentIds, segmentId ≤ 999999
deriving Decidable

theorem sixDigits_iff {e : WALEngine} {files : List (Nat × Text)} (h : HasFiles e.directory files) :
    e.SixDigits ↔ ∀ file ∈ files, file.1 ≤ 999999 := by
  have hids : e.segmentIds = files.map Prod.fst := by
    rw [segmentIds, h.keys, List.filterMap_map, ← List.filterMap_eq_map]
    exact List.filterMap_congr fun file _ => segmentId?_segmentFile file.1
  rw [SixDigits, hids, List.forall_mem_map]

variable (fmt : FloatFormat Rat) (config : StorageConfig)

/-- Calls as they are meant: records are appended, and segments rotated, between `start` and `stop`, with
payloads that are JSON objects; nothing is purged. -/
def Orderly (e : WALEngine) : WALCall → Prop
  | .append now _ payload => e.running = true ∧ WALRecord.Storable fmt payload ∧ fmt.Exact now
  | .rotateSegment _ => e.running = true
  | .purgeSegmentsBefore _ => False
  | _ => True

/-- The files hold these records, and an engine that runs writes behind them. -/
structure Keeps (e : WALEngine) (out : List WALRecord) (files : List (Nat × Text)) : Prop where
  laid : HasFiles e.directory files
  read : ∀ verifyCrc now, readAll (WALRecord.read fmt verifyCrc now) files = out
  complete : ∀ file ∈ files.getLast?, ∀ verifyCrc now, Complete (WALRecord.read fmt verifyCrc now) file.2
  numbered : Numbered out
  nonneg : 0 ≤ e.currentSeq
  le : e.currentSeq ≤ out.length
  running : e.running = true → e.Writes files ∧ e.currentSeq = out.length

variable {fmt} {e : WALEngine} {out : List WALRecord} {files : List (Nat × Text)}

theorem Keeps.foldl_latest (h : e.Keeps fmt out files) (now : Rat) :
    files.foldl (latest fmt now) e.currentSeq = out.length := by
  have hread := h.read false now
  rw [MeshWeaver.foldl_latest h.nonneg (by rw [hread]; exact h.numbered.increasing), hread]
  have hle := h.le
  by_cases hempty : out = []
  · subst hempty
    have hnonneg := h.nonneg
    simp only [List.length_nil] at hle ⊢
    change max e.currentSeq (-1) = 0
    omega
  · rw [h.numbered.lastSeq hempty, max_eq_right hle]

theorem Keeps.start (h : e.Keeps fmt out files) (hids : e.SixDigits) (now : Rat) :
    ∃ files', (e.start fmt now).Keeps fmt out files' := by
  have hids := (sixDigits_iff h.laid).mp hids
  have hread := h.read false now
  rcases List.eq_nil_or_concat' files with rfl | ⟨init, file, rfl⟩
  · obtain ⟨e', he', hwrites, hseq, hrunning⟩ := start_nil fmt now h.laid
    have hnil : out = [] := hread.symm
    subst hnil
    have hle := h.le
    have hnonneg := h.nonneg
    rw [he']
    refine ⟨_, hwrites.files, fun _ _ => rfl, ?_, h.numbered, ?_, ?_, fun _ => ⟨hwrites, ?_⟩⟩
    · rintro _ ⟨⟩ verifyCrc now'
      exact .nil
    all_goals
      simp only [List.length_nil] at hle ⊢
      omega
  · obtain ⟨e', he', hwrites, hseq, hrunning⟩ := start_concat fmt now h.laid hids
    have hlast : e'.currentSeq = out.length := by
      rw [hseq, h.foldl_latest now]
      split_ifs with hsome
      · rw [Files.readAll_append, Files.readAll_singleton] at hread
        have hne : records (WALRecord.read fmt false now) file.2 ≠ [] := fun hnil => hsome (by rw [hnil]; rfl)
        have hout : out ≠ [] := by
          rw [← hread]
          exact List.append_ne_nil_of_right_ne_nil _ hne
        rw [← h.numbered.lastSeq hout, ← hread, lastSeq_append, if_neg hne]
      · rfl
    rw [he']
    exact ⟨_, hwrites.files, h.read, h.complete, h.numbered, by omega, by omega, fun _ => ⟨hwrites, hlast⟩⟩

theorem stop_eq (e : WALEngine) : e.stop.directory = e.directory ∧ e.stop.currentSeq = e.currentSeq ∧
    e.stop.running = false := by
  unfold stop
  cases e.activeSegment with
  | none | some segment => exact ⟨rfl, rfl, rfl⟩

section

variable (h : e.Keeps fmt out files)
include h

theorem Keeps.stop : e.stop.Keeps fmt out files := by
  obtain ⟨hdirectory, hseq, hrunning⟩ := stop_eq e
  refine ⟨hdirectory ▸ h.laid, h.read, h.complete, h.numbered, hseq ▸ h.nonneg, hseq ▸ h.le, ?_⟩
  rw [hrunning]
  intro hfalse
  cases hfalse

theorem Keeps.renew : (new e.directory).Keeps fmt out files := by
  refine ⟨h.laid, h.read, h.complete, h.numbered, le_rfl, Int.natCast_nonneg _, ?_⟩
  intro hfalse
  cases hfalse

theorem Keeps.discover (hids : e.SixDigits) (now : Rat) : (e.discoverSegments fmt now).Keeps fmt out files := by
  have hseq := h.foldl_latest now
  rw [discoverSegments_eq fmt now h.laid ((sixDigits_iff h.laid).mp hids), hseq]
  refine ⟨h.laid, h.read, h.complete, h.numbered, Int.natCast_nonneg _, le_rfl, fun hrunning => ?_⟩
  obtain ⟨hwrites, -⟩ := h.running hrunning
  exact ⟨⟨hwrites.active, hwrites.files⟩, rfl⟩

theorem Keeps.rotate (hrunning : e.running = true) (now : Rat) :
    ∃ files', (e.rotateSegment fmt now).1.Keeps fmt out files' := by
  obtain ⟨hwrites, hseq⟩ := h.running hrunning
  obtain ⟨segmentId, e', he', hwrites', hseq', -⟩ := hwrites.rotateSegment fmt now
  rw [he']
  refine ⟨_, hwrites'.files, fun verifyCrc now' => ?_, ?_, h.numbered, ?_, ?_, fun _ => ⟨hwrites', ?_⟩⟩
  · rw [Files.readAll_append, h.read]
    exact List.append_nil out
  · rw [List.getLast?_concat]
    rintro _ ⟨⟩ verifyCrc now'
    exact .nil
  all_goals omega

end

variable {config}

theorem Keeps.append (h : e.Keeps fmt out files) (hrunning : e.running = true)
    (henabled : config.enableWal = true) {now : Rat} {payload : List (String × Value)}
    (hpayload : WALRecord.Storable fmt payload) (hnow : fmt.Exact now) (recordType : WALRecordType) :
    ∃ e' record files', e.append fmt config now recordType payload = (e', .ok record) ∧
      record.seqNo = out.length + 1 ∧ e'.Keeps fmt (out ++ [record]) files' := by
  obtain ⟨hwrites, hseq⟩ := h.running hrunning
  obtain ⟨record, hcreate, hsealed, hnumber⟩ :=
    WALRecord.create_eq_ok hpayload hnow (e.currentSeq + 1) recordType
  obtain ⟨e', happend, hwrites', hseq', -⟩ := hwrites.append fmt config now henabled hcreate
  obtain ⟨file, segment, hlast, -⟩ := hwrites.active
  have hcomplete := h.complete file hlast
  have hline := hsealed.isLine_text
  have hlength : ((out ++ [record]).length : Int) = out.length + 1 := by simp
  rw [hseq] at hnumber hseq'
  refine ⟨e', record, _, happend, hnumber, hwrites'.files, fun verifyCrc now' => ?_, ?_,
    numbered_concat.mpr ⟨h.numbered, hnumber⟩, by omega, by omega, fun _ => ⟨hwrites', by omega⟩⟩
  · rw [Files.readAll_appendLine hlast (hcomplete verifyCrc now') hline
      (hsealed.read_text verifyCrc now'), h.read]
  · intro file' hfile' verifyCrc now'
    exact Files.complete_appendLine hlast (hcomplete verifyCrc now') hline
      (hsealed.read_text verifyCrc now') config.full file' hfile'

theorem keeps_of_appends_nil {call : WALCall} (hnone : e.appends fmt config call = [])
    (h : ∃ files', (e.step fmt config call).Keeps fmt out files') :
    ∃ files', (e.step fmt config call).Keeps fmt (out ++ e.appends fmt config call) files' := by
  rwa [hnone, List.append_nil]

theorem Keeps.step (h : e.Keeps fmt out files) (henabled : config.enableWal = true) {call : WALCall}
    (horderly : e.Orderly fmt call) (hids : e.SixDigits) :
    ∃ files', (e.step fmt config call).Keeps fmt (out ++ e.appends fmt config call) files' := by
  cases call with
  | append now recordType payload =>
    obtain ⟨hrunning, hpayload, hnow⟩ := horderly
    obtain ⟨e', record, files', happend, -, hkeeps⟩ :=
      h.append hrunning henabled hpayload hnow recordType
    refine ⟨files', ?_⟩
    rwa [WALEngine.step, appends, happend]
  | start now => exact keeps_of_appends_nil rfl (h.start hids now)
  | stop => exact keeps_of_appends_nil rfl ⟨files, h.stop⟩
  | renew => exact keeps_of_appends_nil rfl ⟨files, h.renew⟩
  | rotateSegment now => exact keeps_of_appends_nil rfl (h.rotate horderly now)
  | iterAllRecords now verifyCrc => exact keeps_of_appends_nil rfl ⟨files, h.discover hids now⟩
  | purgeSegmentsBefore seqNo => exact horderly.elim

theorem keeps_new : (new Dict.empty).Keeps fmt [] [] := by
  refine ⟨⟨rfl, List.Pairwise.nil⟩, fun _ _ => rfl, ?_, rfl, le_rfl, le_rfl, ?_⟩
  · intro file hfile
    cases hfile
  · intro hfalse
    cases hfalse

theorem keeps_after (henabled : config.enableWal = true) {calls : List WALCall}
    (h : Along (WALEngine.step fmt config) (fun e call => e.Orderly fmt call ∧ e.SixDigits)
      (new Dict.empty) calls) :
    ∃ files, ((new Dict.empty).after fmt config calls).Keeps fmt
      ((new Dict.empty).appended fmt config calls) files := by
  have hinit : ∃ files, (new Dict.empty).Keeps fmt [] files := ⟨[], keeps_new⟩
  refine h.invariant_emitted (appends fmt config) (fun e out => ∃ files, e.Keeps fmt out files) ?_ hinit
  rintro e call out ⟨files, hkeeps⟩ ⟨horderly, hids⟩
  exact hkeeps.step henabled horderly hids

def restart (renewed : Bool) (now : Rat) : List WALCall :=
  if renewed then [.stop, .renew, .start now] else [.stop, .start now]

variable (config) in
theorem Keeps.restart (h : e.Keeps fmt out files) (hids : e.SixDigits) (renewed : Bool) (now : Rat) :
    (∃ files', (e.after fmt config (restart renewed now)).Keeps fmt out files') ∧
      (e.after fmt config (restart renewed now)).running = true := by
  have hfiles := (sixDigits_iff h.laid).mp hids
  cases renewed with
  | false => exact ⟨h.stop.start ((sixDigits_iff h.stop.laid).mpr hfiles) now, rfl⟩
  | true => exact ⟨h.stop.renew.start ((sixDigits_iff h.stop.laid).mpr hfiles) now, rfl⟩

/-- **The log loses, duplicates and reorders nothing**, and goes on with the next number after a restart. -/
theorem iterAllRecords_eq_appended (fmt : FloatFormat Rat) (config : StorageConfig)
    (henabled : config.enableWal = true) (calls : List WALCall)
    (h : Along (WALEngine.step fmt config) (fun e call => e.Orderly fmt call ∧ e.SixDigits)
      (new Dict.empty) calls)
    (hids : ((new Dict.empty).after fmt config calls).SixDigits) :
    let e := (new Dict.empty).after fmt config calls
    let out := (new Dict.empty).appended fmt config calls
    (∀ now, (e.iterAllRecords fmt now true).2 = out) ∧
      out.map WALRecord.seqNo = (List.range out.length).map (fun i : Nat => (i : Int) + 1) ∧
      ∀ renewed started now recordType payload, WALRecord.Storable fmt payload → fmt.Exact now →
        ∃ record, ((e.after fmt config (restart renewed started)).append fmt config now recordType payload).2 =
          .ok record ∧ record.seqNo = out.length + 1 := by
  intro e out
  obtain ⟨files, hkeeps⟩ := keeps_after henabled h
  have hfiles := (sixDigits_iff hkeeps.laid).mp hids
  refine ⟨fun now => ?_, hkeeps.numbered, ?_⟩
  · rw [iterAllRecords_eq fmt now hkeeps.laid hfiles, hkeeps.read]
  · intro renewed started now recordType payload hpayload hnow
    obtain ⟨⟨files', hrestarted⟩, hrunning⟩ := hkeeps.restart config hids renewed started
    obtain ⟨e', record, -, happend, hnumber, -⟩ :=
      hrestarted.append hrunning henabled hpayload hnow recordType
    exact ⟨record, by rw [happend], hnumber⟩

def twoSegments : List WALCall :=
  [.start 1, .append 1 .entry [("k", .int 1)], .rotateSegment 1, .stop, .renew, .start 2,
    .append 2 .checkpoint [], .iterAllRecords 2 true]

theorem iterAllRecords_eq_appended_twoSegments :
    let out := (new Dict.empty).appended digitFloats ⟨100, true⟩ twoSegments
    (((new Dict.empty).after digitFloats ⟨100, true⟩ twoSegments).iterAllRecords digitFloats 3 true).2 = out ∧
      out.map WALRecord.seqNo = [1, 2] := by
  have hpayload : WALRecord.Storable digitFloats [("k", .int 1)] := ⟨rfl, by simp [Value.jsonItems], trivial, trivial⟩
  have hempty : WALRecord.Storable digitFloats [] := ⟨rfl, by simp [Value.jsonItems], trivial⟩
  have horderly : Along (WALEngine.step digitFloats ⟨100, true⟩)
      (fun e call => e.Orderly digitFloats call ∧ e.SixDigits) (new Dict.empty) twoSegments :=
    ⟨⟨trivial, by decide +kernel⟩, ⟨⟨rfl, hpayload, 1, by decide, rfl⟩, by decide +kernel⟩,
      ⟨by change WALEngine.running _ = true; decide +kernel, by decide +kernel⟩,
      ⟨trivial, by decide +kernel⟩, ⟨trivial, by decide +kernel⟩,
      ⟨trivial, by decide +kernel⟩, ⟨⟨rfl, hempty, 2, by decide, rfl⟩, by decide +kernel⟩,
      ⟨trivial, by decide +kernel⟩, trivial⟩
  have hkept := iterAllRecords_eq_appended digitFloats ⟨100, true⟩ rfl twoSegments horderly (by decide +kernel)
  exact ⟨hkept.1 3, by decide +kernel⟩

end WALEngine

end MeshWeaver
