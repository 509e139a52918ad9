import Mathlib.Data.List.Flatten
import MeshWeaver.Wal.Runs

/-!
# Purging

`purge_segments_before` knows the active segment by its identity and the records of a segment by its cached
fields, while `iter_all_records` puts new objects into `self.segments` and appends go on through the old
one. What is purged is dead where the active segment is one of the listed ones and their fields are those
of the files.
-/

namespace MeshWeaver

open Lib WALSegment
open Lib.Files (records readAll appendLine content)
open Lib.Json (FloatFormat)

theorem Increasing.le_lastSeq {rs : List WALRecord} (h : Increasing rs) :
    ∀ record ∈ rs, record.seqNo ≤ lastSeq rs := by
  intro record hrecord
  rcases List.eq_nil_or_concat' rs with rfl | ⟨init, last, rfl⟩
  · cases hrecord
  · rw [lastSeq, List.getLast?_concat]
    rcases List.mem_append.mp hrecord with hinit | hlast
    · exact ((increasing_append.mp h).2.2 record hinit last List.mem_cons_self).le
    · rw [List.mem_singleton.mp hlast]
      exact le_rfl

theorem Increasing.sublist {rs rs' : List WALRecord} (h : Increasing rs) (hsub : rs'.Sublist rs) : Increasing rs' :=
  ⟨h.pairwise.sublist (hsub.map _), fun record hrecord => h.pos record (hsub.subset hrecord)⟩

/-! ### Deleted files -/

theorem items_foldl_erase (segments : List WALSegment) (directory : Directory) :
    (segments.foldl (fun directory segment => directory.erase segment.filePath) directory).items =
      directory.items.filter fun item => item.1 ∉ segments.map filePath := by
  induction segments generalizing directory with
  | nil => simp
  | cons segment segments ih =>
    rw [List.foldl_cons, ih]
    change (directory.items.filter _).filter _ = _
    rw [List.filter_filter]
    simp only [List.map_cons, List.mem_cons, not_or, Bool.decide_and, ne_eq, Bool.and_comm]

theorem HasFiles.filter {directory directory' : Directory} {files : List (Nat × Text)}
    (h : HasFiles directory files) {p : Text → Bool}
    (hitems : directory'.items = directory.items.filter fun item => p item.1) :
    HasFiles directory' (files.filter fun file => p (segmentFile file.1)) := by
  constructor
  · rw [hitems, h.items, List.filter_map]
    rfl
  · exact h.ordered.sublist (List.filter_sublist.map _)

namespace WALEngine

/-! ### The listed segments -/

/-- The segments of `self.segments` stand for different files that exist, and the active one, if it is among
them, for its own file. -/
structure Listed (e : WALEngine) : Prop where
  known : ∀ segment ∈ e.segments, segment.filePath ∈ e.directory.keys
  distinct : (e.segments.map filePath).Nodup
  old : ∀ segment ∈ e.segments, segment.ref < e.created
  active_old : ∀ segment ∈ e.activeSegment, segment.ref < e.created
  active_path : ∀ segment ∈ e.activeSegment, ∀ other ∈ e.segments, other.ref = segment.ref →
    other.filePath = segment.filePath

variable (fmt : FloatFormat Rat) (now : Rat) {e : WALEngine} {files : List (Nat × Text)} {segment changed : WALSegment}

theorem scanned_ref (n : Nat) (files : List (Nat × Text)) :
    ∀ segment ∈ scanned fmt now n files, n ≤ segment.ref ∧ segment.ref < n + files.length := by
  induction files generalizing n with
  | nil =>
    intro segment hsegment
    cases hsegment
  | cons file files ih =>
    intro segment hsegment
    rw [List.length_cons]
    rcases List.mem_cons.mp hsegment with rfl | hsegment
    · rw [opened_ref]
      omega
    · have hbounds := ih (n + 1) segment hsegment
      omega

theorem listed_scanned (h : HasFiles e.directory files) :
    (∀ segment ∈ scanned fmt now e.created files, segment.filePath ∈ e.directory.keys) ∧
      ((scanned fmt now e.created files).map filePath).Nodup := by
  have hnames : (scanned fmt now e.created files).map filePath = e.directory.keys := by
    rw [scanned_filePath, h.keys]
  rw [hnames]
  refine ⟨fun segment hsegment => ?_, e.directory.nodup⟩
  rw [← hnames]
  exact List.mem_map_of_mem hsegment

theorem Listed.discover (h : e.Listed) (hlaid : HasFiles e.directory files)
    (hids : ∀ file ∈ files, file.1 ≤ 999999) : (e.discoverSegments fmt now).Listed := by
  obtain ⟨hknown, hdistinct⟩ := listed_scanned fmt now hlaid
  have hrefs := scanned_ref fmt now e.created files
  rw [discoverSegments_eq fmt now hlaid hids]
  refine ⟨hknown, hdistinct, fun segment hsegment => (hrefs segment hsegment).2, ?_, ?_⟩
  · intro segment hactive
    exact (h.active_old segment hactive).trans_le (Nat.le_add_right _ _)
  · -- the new objects are not the active one
    intro segment hactive other hother href
    have hold := h.active_old segment hactive
    have hnew := (hrefs other hother).1
    omega

theorem Listed.update (h : e.Listed) (hactive : e.activeSegment = some segment)
    (href : changed.ref = segment.ref) (hpath : changed.filePath = segment.filePath) : (e.update changed).Listed := by
  let change (other : WALSegment) : WALSegment := if other.ref = changed.ref then changed else other
  have hchange : ∀ other ∈ e.segments, (change other).ref = other.ref ∧
      (change other).filePath = other.filePath := by
    intro other hother
    by_cases hsame : other.ref = changed.ref
    · have hother' := h.active_path segment hactive other hother (hsame.trans href)
      simp only [change, if_pos hsame]
      exact ⟨hsame.symm, hpath.trans hother'.symm⟩
    · simp only [change, if_neg hsame, and_self]
  have hpaths : (e.segments.map change).map filePath = e.segments.map filePath := by
    rw [List.map_map]
    exact List.map_congr_left fun other hother => (hchange other hother).2
  have hnext := activeSegment_update hactive changed href
  refine ⟨?_, hpaths ▸ h.distinct, ?_, ?_, ?_⟩
  · rintro _ hmem
    obtain ⟨other, hother, rfl⟩ := List.mem_map.mp hmem
    exact (hchange other hother).2 ▸ h.known other hother
  · rintro _ hmem
    obtain ⟨other, hother, rfl⟩ := List.mem_map.mp hmem
    rw [(hchange other hother).1]
    exact h.old other hother
  · rw [hnext]
    rintro _ ⟨⟩
    exact href ▸ h.active_old segment hactive
  · rw [hnext]
    rintro _ ⟨⟩ _ hmem hsame
    obtain ⟨other, hother, rfl⟩ := List.mem_map.mp hmem
    obtain ⟨hother_ref, hother_path⟩ := hchange other hother
    rw [hother_path, hpath]
    exact h.active_path segment hactive other hother (hother_ref.symm.trans (hsame.trans href))

theorem Listed.createNewSegment (h : e.Listed) {segmentId : Nat} (hnew : segmentFile segmentId ∉ e.directory.keys) :
    (e.createNewSegment fmt now segmentId).1.Listed := by
  have hkeys := Dict.mem_keys_insert e.directory (segmentFile segmentId) (e.text (segmentFile segmentId))
  refine ⟨?_, ?_, ?_, ?_, ?_⟩
  · intro segment hsegment
    refine (hkeys _).mpr ?_
    rcases List.mem_append.mp hsegment with hsegment | hsegment
    · exact Or.inr (h.known segment hsegment)
    · rw [List.mem_singleton.mp hsegment, opened_filePath]
      exact Or.inl rfl
  · change ((e.segments ++ [_]).map filePath).Nodup
    rw [List.map_append, List.map_singleton, opened_filePath, ← List.concat_eq_append,
      List.nodup_concat]
    refine ⟨fun hmem => ?_, h.distinct⟩
    obtain ⟨segment, hsegment, hpath⟩ := List.mem_map.mp hmem
    exact hnew (hpath ▸ h.known segment hsegment)
  · intro segment hsegment
    rcases List.mem_append.mp hsegment with hsegment | hsegment
    · exact (h.old segment hsegment).trans (Nat.lt_succ_self _)
    · rw [List.mem_singleton.mp hsegment, opened_ref]
      exact Nat.lt_succ_self _
  · rintro _ ⟨⟩
    rw [opened_ref]
    exact Nat.lt_succ_self _
  · rintro _ ⟨⟩ other hother href
    rcases List.mem_append.mp hother with hother | hother
    · rw [opened_ref] at href
      exact absurd href (h.old other hother).ne
    · rw [List.mem_singleton.mp hother]

theorem Listed.write (h : e.Listed) (hactive : e.activeSegment = some segment) (record : WALRecord) :
    (e.write fmt segment record).1.Listed := by
  have hcount : (e.update (segment.count record)).Listed := h.update hactive rfl rfl
  unfold WALEngine.write
  cases segment.closed with
  | true => exact h
  | false =>
    cases hget : e.directory.get? segment.filePath with
    | none => exact hcount
    | some text =>
      refine ⟨fun other hother => ?_, hcount.distinct, hcount.old, hcount.active_old, hcount.active_path⟩
      exact (Dict.mem_keys_insert ..).mpr (Or.inr (hcount.known other hother))

/-! ### What is stored -/

/-- The files hold these records, of which no two have one number. -/
structure Stored (e : WALEngine) (segs : List (Nat × List WALRecord)) : Prop where
  laid : HasFiles e.directory (filesOf fmt segs)
  sealed : ∀ record ∈ segs.flatMap Prod.snd, record.Sealed fmt
  increasing : Increasing (segs.flatMap Prod.snd)
  nonneg : 0 ≤ e.currentSeq
  listed : e.Listed

/-- The active segment is the last one, and the engine goes on behind its records. -/
structure Tracks (e : WALEngine) (segs : List (Nat × List WALRecord)) : Prop extends e.Stored fmt segs where
  writes : e.activeSegment ≠ none → e.Writes (filesOf fmt segs) ∧
    ∀ record ∈ segs.flatMap Prod.snd, record.seqNo ≤ e.currentSeq

variable {fmt now} {config : StorageConfig} {segs : List (Nat × List WALRecord)} {record : WALRecord}
  {payload : List (String × Value)}

theorem filesOf_concat (segs : List (Nat × List WALRecord)) (seg : Nat × List WALRecord) :
    filesOf fmt (segs ++ [seg]) = filesOf fmt segs ++ [(seg.1, content (WALRecord.text fmt) seg.2)] :=
  List.map_append

section

variable (h : e.Stored fmt segs)
include h

theorem Stored.readAll_eq (verifyCrc : Bool) (now : Rat) :
    readAll (WALRecord.read fmt verifyCrc now) (filesOf fmt segs) = segs.flatMap Prod.snd :=
  readAll_filesOf (fun seg hseg record hrecord =>
    h.sealed record (List.mem_flatMap.mpr ⟨seg, hseg, hrecord⟩)) verifyCrc now

theorem Stored.mem_iterAllRecords (now : Rat) (record : WALRecord) :
    record ∈ (e.iterAllRecords fmt now true).2 ↔ record ∈ segs.flatMap Prod.snd := by
  rw [(iterAllRecords_perm fmt now h.laid true).mem_iff, h.readAll_eq]

theorem Stored.foldl_latest (now : Rat) :
    e.currentSeq ≤ (filesOf fmt segs).foldl (latest fmt now) e.currentSeq ∧
      ∀ record ∈ segs.flatMap Prod.snd, record.seqNo ≤ (filesOf fmt segs).foldl (latest fmt now) e.currentSeq := by
  have hread := h.readAll_eq false now
  rw [MeshWeaver.foldl_latest h.nonneg (hread ▸ h.increasing), hread]
  exact ⟨le_max_left _ _, fun record hrecord =>
    (h.increasing.le_lastSeq record hrecord).trans (le_max_right _ _)⟩

theorem Stored.createNewSegment {segmentId : Nat} (hnew : ∀ file ∈ filesOf fmt segs, file.1 < segmentId)
    (hseq : ∀ record ∈ segs.flatMap Prod.snd, record.seqNo ≤ e.currentSeq) (now : Rat) :
    (e.createNewSegment fmt now segmentId).1.Tracks fmt (segs ++ [(segmentId, [])]) := by
  have hrecords : (segs ++ [(segmentId, ([] : List WALRecord))]).flatMap Prod.snd = segs.flatMap Prod.snd := by
    rw [List.flatMap_append, List.flatMap_singleton, List.append_nil]
  have hlisted := h.listed.createNewSegment fmt now (h.laid.notMem_keys hnew)
  obtain ⟨e', segment, hcreate, hwrites, -, hcurrent, -⟩ := createNewSegment_spec fmt now h.laid hnew
  rw [hcreate] at hlisted ⊢
  have hwrites' : e'.Writes (filesOf fmt (segs ++ [(segmentId, [])])) := by
    rwa [filesOf_concat]
  refine ⟨⟨hwrites'.files, hrecords ▸ h.sealed, hrecords ▸ h.increasing, hcurrent ▸ h.nonneg, hlisted⟩, ?_⟩
  rw [hrecords, hcurrent]
  exact fun _ => ⟨hwrites', hseq⟩

end

theorem Tracks.discover (h : e.Tracks fmt segs) (hids : e.SixDigits) (now : Rat) :
    (e.discoverSegments fmt now).Tracks fmt segs := by
  have hids' := (sixDigits_iff h.laid).mp hids
  have hlisted := h.listed.discover fmt now h.laid hids'
  obtain ⟨hle, hlatest⟩ := h.foldl_latest now
  rw [discoverSegments_eq fmt now h.laid hids'] at hlisted ⊢
  refine ⟨⟨h.laid, h.sealed, h.increasing, h.nonneg.trans hle, hlisted⟩, fun hactive => ?_⟩
  obtain ⟨hwrites, -⟩ := h.writes hactive
  exact ⟨⟨hwrites.active, hwrites.files⟩, hlatest⟩

theorem Listed.start_concat (h : e.Listed) {file : Nat × Text} (hlaid : HasFiles e.directory (files ++ [file]))
    (hids : ∀ file' ∈ files ++ [file], file'.1 ≤ 999999) (now : Rat) : (e.start fmt now).Listed := by
  have hlisted := h.discover fmt now hlaid hids
  have hdiscover := discoverSegments_eq fmt now hlaid hids
  have hrefs := scanned_ref fmt now e.created files
  unfold WALEngine.start
  rw [hdiscover, scanned_concat] at hlisted ⊢
  dsimp only
  rw [List.getLast?_concat]
  refine ⟨hlisted.known, hlisted.distinct, hlisted.old, ?_, ?_⟩
  · rintro _ ⟨⟩
    exact hlisted.old _ (List.mem_append_right _ List.mem_cons_self)
  · rintro _ ⟨⟩ other hother href
    rcases List.mem_append.mp hother with hother | hother
    · have hlt := (hrefs other hother).2
      rw [opened_ref] at href
      omega
    · rw [List.mem_singleton.mp hother]

theorem Tracks.start (h : e.Tracks fmt segs) (hids : e.SixDigits) (now : Rat) :
    ∃ segs', (e.start fmt now).Tracks fmt segs' ∧ segs'.flatMap Prod.snd = segs.flatMap Prod.snd := by
  have hids' := (sixDigits_iff h.laid).mp hids
  obtain ⟨hle, hlatest⟩ := h.foldl_latest now
  rcases List.eq_nil_or_concat' segs with rfl | ⟨init, seg, rfl⟩
  · -- there is no file yet: the first one is created
    have hdiscover := h.discover hids now
    have hnone : (e.discoverSegments fmt now).segments.getLast? = none := by
      rw [discoverSegments_eq fmt now h.laid hids']
      rfl
    have hcreate : ((e.discoverSegments fmt now).createNewSegment fmt now 1).1.Tracks fmt [(1, [])] :=
      hdiscover.createNewSegment (fun file hfile => absurd hfile List.not_mem_nil)
        (fun record hrecord => absurd hrecord List.not_mem_nil) now
    refine ⟨[(1, [])], ?_, rfl⟩
    unfold WALEngine.start
    dsimp only
    rw [hnone]
    exact ⟨⟨hcreate.laid, hcreate.sealed, hcreate.increasing, hcreate.nonneg,
      ⟨hcreate.listed.known, hcreate.listed.distinct, hcreate.listed.old, hcreate.listed.active_old,
        hcreate.listed.active_path⟩⟩,
      fun hactive => ⟨⟨(hcreate.writes hactive).1.active, hcreate.laid⟩, (hcreate.writes hactive).2⟩⟩
  · refine ⟨init ++ [seg], ?_, rfl⟩
    have hlaid := h.laid
    rw [filesOf_concat] at hlaid hids'
    have hlisted : (e.start fmt now).Listed := h.listed.start_concat hlaid hids' now
    obtain ⟨e', he', hwrites, hcurrent, -⟩ := start_concat fmt now hlaid hids'
    have hseg : ∀ record ∈ seg.2, record.Sealed fmt := fun record hrecord =>
      h.sealed record (List.mem_flatMap.mpr ⟨seg, List.mem_append_right _ List.mem_cons_self, hrecord⟩)
    rw [records_content_eq hseg, ← filesOf_concat] at hcurrent
    have hincreasing := h.increasing
    rw [List.flatMap_append, List.flatMap_singleton] at hincreasing
    have hseq : 0 ≤ e'.currentSeq ∧
        ∀ record ∈ (init ++ [seg]).flatMap Prod.snd, record.seqNo ≤ e'.currentSeq := by
      rw [hcurrent]
      split_ifs with hsome
      · -- the last file has a record, which has the highest number
        obtain ⟨records, last, hlast⟩ := (List.eq_nil_or_concat' seg.2).resolve_left fun hnil =>
          hsome (by rw [hnil]; rfl)
        have hmem : last ∈ seg.2 := hlast ▸ List.mem_append_right _ List.mem_cons_self
        have hpos := hincreasing.pos last (List.mem_append_right _ hmem)
        have hle' := (increasing_append.mp hincreasing).2.1.le_lastSeq last hmem
        refine ⟨by omega, fun record hrecord => ?_⟩
        rw [List.flatMap_append, List.flatMap_singleton] at hrecord
        have hbound := hincreasing.le_lastSeq record hrecord
        rwa [lastSeq_append, if_neg (hlast ▸ List.append_ne_nil_of_right_ne_nil _ (List.cons_ne_nil _ _))]
          at hbound
      · exact ⟨h.nonneg.trans hle, hlatest⟩
    rw [he'] at hlisted ⊢
    rw [← filesOf_concat] at hwrites
    exact ⟨⟨hwrites.files, h.sealed, h.increasing, hseq.1, hlisted⟩, fun _ => ⟨hwrites, hseq.2⟩⟩

theorem Tracks.rotateSegment (h : e.Tracks fmt segs) (hactive : e.activeSegment ≠ none) (now : Rat) :
    ∃ segs', (e.rotateSegment fmt now).1.Tracks fmt segs' ∧ segs'.flatMap Prod.snd = segs.flatMap Prod.snd := by
  obtain ⟨hwrites, hseq⟩ := h.writes hactive
  obtain ⟨init, segmentId, text, segment, hfiles, hsegment, hopens⟩ := hwrites.exists_last
  have hclosed : (e.close segment).Stored fmt segs :=
    ⟨h.laid, h.sealed, h.increasing, h.nonneg, h.listed.update hsegment rfl rfl⟩
  refine ⟨segs ++ [(segmentId + 1, [])], ?_, ?_⟩
  · rw [WALEngine.rotateSegment, hsegment]
    dsimp only
    rw [hopens.segmentId]
    refine hclosed.createNewSegment ?_ hseq now
    rw [hfiles]
    exact (hfiles ▸ hwrites.files).lt_next
  · rw [List.flatMap_append, List.flatMap_singleton, List.append_nil]

/-! ### Appends -/

theorem Listed.append (h : e.Listed) (hwrites : e.Writes files) {recordType : WALRecordType}
    (henabled : config.enableWal = true)
    (hcreate : WALRecord.create fmt (e.currentSeq + 1) recordType payload now = .ok record) :
    (e.append fmt config now recordType payload).1.Listed := by
  obtain ⟨init, segmentId, text, segment, rfl, hactive, hopens⟩ := hwrites.exists_last
  let e₁ : WALEngine := { e with currentSeq := e.currentSeq + 1 }
  have h₁ : e₁.Listed := ⟨h.known, h.distinct, h.old, h.active_old, h.active_path⟩
  have hlast : (segmentId, text) ∈ init ++ [(segmentId, text)] := List.mem_append_right _ List.mem_cons_self
  rw [append_eq fmt config now henabled hcreate,
    writable_eq fmt config now (e := e₁) hwrites.files hlast hactive hopens]
  split_ifs
  · have hnew := hwrites.files.notMem_keys hwrites.files.lt_next
    have hclosed : (e₁.close segment).Listed := h₁.update hactive rfl rfl
    exact (hclosed.createNewSegment fmt now hnew).write fmt rfl record
  · exact h₁.write fmt hactive record

theorem exists_filesOf_appendLine (hne : segs ≠ []) (record : WALRecord) (full : Text → Bool) :
    ∃ segs', appendLine full (record.text fmt ++ ['\n']) (filesOf fmt segs) = filesOf fmt segs' ∧
      segs'.flatMap Prod.snd = segs.flatMap Prod.snd ++ [record] := by
  obtain ⟨init, seg, rfl⟩ := (List.eq_nil_or_concat' segs).resolve_left hne
  have hline : record.text fmt ++ ['\n'] = content (WALRecord.text fmt) [record] := by
    rw [content, List.flatMap_singleton]
  rw [filesOf_concat, Files.appendLine_append _ _ _ (List.cons_ne_nil _ _), appendLine, hline]
  split_ifs
  · refine ⟨init ++ [seg] ++ [(seg.1 + 1, [record])], ?_, ?_⟩
    · rw [filesOf_concat, filesOf_concat, List.append_assoc]
      rfl
    · rw [List.flatMap_append, List.flatMap_singleton]
  · refine ⟨init ++ [(seg.1, seg.2 ++ [record])], ?_, ?_⟩
    · rw [filesOf_concat, Files.content_append]
    · simp only [List.flatMap_append, List.flatMap_singleton, List.append_assoc]

theorem Increasing.concat {rs : List WALRecord} {seq : Int} (h : Increasing rs)
    (hnonneg : 0 ≤ seq) (hle : ∀ r ∈ rs, r.seqNo ≤ seq) (hrecord : record.seqNo = seq + 1) :
    Increasing (rs ++ [record]) := by
  refine increasing_append.mpr ⟨h, ⟨List.pairwise_singleton _ _, ?_⟩, fun r hr => ?_⟩
  · rw [List.forall_mem_singleton]
    omega
  · rw [List.forall_mem_singleton]
    have hr' := hle r hr
    omega

theorem Tracks.append (h : e.Tracks fmt segs) (hactive : e.activeSegment ≠ none) (henabled : config.enableWal = true)
    (hpayload : WALRecord.Storable fmt payload) (hnow : fmt.Exact now) (recordType : WALRecordType) :
    ∃ e' record segs', e.append fmt config now recordType payload = (e', .ok record) ∧
      e'.Tracks fmt segs' ∧ segs'.flatMap Prod.snd = segs.flatMap Prod.snd ++ [record] := by
  obtain ⟨hwrites, hseq⟩ := h.writes hactive
  obtain ⟨record, hcreate, hsealed, hnumber⟩ :=
    WALRecord.create_eq_ok hpayload hnow (e.currentSeq + 1) recordType
  have hlisted := h.listed.append hwrites henabled hcreate
  obtain ⟨e', happend, hwrites', hcurrent, -⟩ := hwrites.append fmt config now henabled hcreate
  have hne : segs ≠ [] := by
    rintro rfl
    obtain ⟨_, _, hlast, -⟩ := hwrites.active
    cases hlast
  obtain ⟨segs', hfiles, hrecords⟩ := exists_filesOf_appendLine hne record config.full
  rw [hfiles] at hwrites'
  rw [happend] at hlisted
  have hnonneg := h.nonneg
  refine ⟨e', record, segs', happend,
    ⟨⟨hwrites'.files, ?_, ?_, by omega, hlisted⟩, fun _ => ⟨hwrites', ?_⟩⟩, hrecords⟩
  · rw [hrecords, List.forall_mem_append, List.forall_mem_singleton]
    exact ⟨h.sealed, hsealed⟩
  · rw [hrecords]
    exact Increasing.concat h.increasing hnonneg hseq hnumber
  · rw [hrecords, List.forall_mem_append, List.forall_mem_singleton]
    refine ⟨fun r hr => ?_, by omega⟩
    have hle := hseq r hr
    omega

theorem append_none (hnone : e.activeSegment = none) (henabled : config.enableWal = true) {recordType : WALRecordType}
    (hcreate : WALRecord.create fmt (e.currentSeq + 1) recordType payload now = .ok record) :
    e.append fmt config now recordType payload =
      (e.createNewSegment fmt now 1).1.append fmt config now recordType payload := by
  rw [append_eq fmt config now henabled hcreate,
    append_eq fmt config now henabled (show WALRecord.create fmt
      ((e.createNewSegment fmt now 1).1.currentSeq + 1) recordType payload now = .ok record from hcreate)]
  rw [hnone]
  rfl

/-! ### Purges -/

/-- The active segment is one of `self.segments`. -/
def ActiveListed (e : WALEngine) : Prop :=
  ∀ segment ∈ e.activeSegment, segment.ref ∈ e.segments.map WALSegment.ref
deriving Decidable

variable (fmt) in
/-- A new scan of the files finds the cached `end_seq` of each listed segment. -/
def Fresh (e : WALEngine) : Prop :=
  ∀ segment ∈ e.segments, segment.endSeq = (opened fmt 0 segment.ref segment.filePath
    segment.segmentId (e.text segment.filePath)).endSeq
deriving Decidable

/-- The names of the files that a purge deletes. -/
def purged (e : WALEngine) (seqNo : Int) : List Text :=
  (e.segments.filter (e.purges seqNo)).map filePath

theorem mem_purged {seqNo : Int} {name : Text} : name ∈ e.purged seqNo ↔ ∃ segment ∈ e.segments,
    (e.activeSegment.map WALSegment.ref ≠ some segment.ref ∧ segment.endSeq ≠ -1 ∧ segment.endSeq < seqNo) ∧
      segment.filePath = name := by
  simp only [purged, List.mem_map, List.mem_filter, purges, Bool.and_eq_true, decide_eq_true_eq, and_assoc]

theorem items_purge (e : WALEngine) (seqNo : Int) : (e.purgeSegmentsBefore seqNo).directory.items =
    e.directory.items.filter fun item => item.1 ∉ e.purged seqNo := items_foldl_erase _ _

theorem Listed.active_notMem_purged (h : e.Listed) (hactive : e.ActiveListed) (seqNo : Int) :
    ∀ segment ∈ e.activeSegment, segment.filePath ∉ e.purged seqNo := by
  intro segment hsegment hmem
  obtain ⟨other, hother, ⟨hidentity, -⟩, hpath⟩ := mem_purged.mp hmem
  obtain ⟨listed, hlisted, href⟩ := List.mem_map.mp (hactive segment hsegment)
  have hsame : other = listed := List.inj_on_of_nodup_map h.distinct hother hlisted
    (hpath.trans (h.active_path segment hsegment listed hlisted href).symm)
  rw [hsegment, hsame, href] at hidentity
  exact hidentity rfl

theorem Stored.lt_of_mem_purged (h : e.Stored fmt segs) (hfresh : e.Fresh fmt) {seqNo : Int}
    {seg : Nat × List WALRecord} (hseg : seg ∈ segs) (hpurged : segmentFile seg.1 ∈ e.purged seqNo) :
    ∀ record ∈ seg.2, record.seqNo < seqNo := by
  intro record hrecord
  obtain ⟨segment, hsegment, ⟨-, -, hlt⟩, hpath⟩ := mem_purged.mp hpurged
  have hsub : seg.2.Sublist (segs.flatMap Prod.snd) := by
    rw [← List.flatMap_singleton (f := Prod.snd)]
    exact (List.singleton_sublist.mpr hseg).flatMap Prod.snd
  have htext : e.text (segmentFile seg.1) = content (WALRecord.text fmt) seg.2 :=
    text_of_hasFiles h.laid (seg.1, content (WALRecord.text fmt) seg.2)
      (List.mem_map.mpr ⟨seg, hseg, rfl⟩)
  have hend := hfresh segment hsegment
  rw [opened_endSeq, hpath, htext,
    records_content_eq fun record hrecord => h.sealed record (hsub.subset hrecord)] at hend
  have hle := (h.increasing.sublist hsub).le_lastSeq record hrecord
  rw [← hend] at hle
  exact hle.trans_lt hlt

/-- **A purge keeps the file of the active segment and all records that are not behind it.** -/
theorem Tracks.purge (h : e.Tracks fmt segs) (hactive : e.ActiveListed) (hfresh : e.Fresh fmt) (seqNo : Int) :
    ∃ segs', (e.purgeSegmentsBefore seqNo).Tracks fmt segs' ∧
      ∀ record ∈ segs.flatMap Prod.snd, seqNo ≤ record.seqNo → record ∈ segs'.flatMap Prod.snd := by
  let kept (name : Text) : Bool := name ∉ e.purged seqNo
  let segs' := segs.filter fun seg => kept (segmentFile seg.1)
  have hfiles : (filesOf fmt segs).filter (fun file => kept (segmentFile file.1)) = filesOf fmt segs' :=
    List.filter_map
  have hsub : (segs'.flatMap Prod.snd).Sublist (segs.flatMap Prod.snd) := List.filter_sublist.flatMap Prod.snd
  have hlaid : HasFiles (e.purgeSegmentsBefore seqNo).directory (filesOf fmt segs') :=
    hfiles ▸ h.laid.filter (items_purge e seqNo)
  have hlisted : (e.purgeSegmentsBefore seqNo).Listed := by
    have hmem : ∀ segment ∈ (e.purgeSegmentsBefore seqNo).segments, segment ∈ e.segments :=
      fun segment hsegment => List.mem_of_mem_filter hsegment
    refine ⟨?_, h.listed.distinct.sublist (List.filter_sublist.map _), fun segment hsegment =>
      h.listed.old segment (hmem segment hsegment), h.listed.active_old, fun segment hsegment other hother =>
      h.listed.active_path segment hsegment other (hmem other hother)⟩
    -- what is left of the list is not deleted, since no other object stands for its file
    intro segment hsegment
    have hpurged : segment.filePath ∉ e.purged seqNo := by
      intro hmem'
      obtain ⟨other, hother, hpath⟩ := List.mem_map.mp hmem'
      obtain ⟨hother, hpurges⟩ := List.mem_filter.mp hother
      have hsame := List.inj_on_of_nodup_map h.listed.distinct hother (hmem segment hsegment) hpath
      have hleft := (List.mem_filter.mp hsegment).2
      rw [← hsame, hpurges] at hleft
      cases hleft
    obtain ⟨item, hitem, hname⟩ := List.mem_map.mp (h.listed.known segment (hmem segment hsegment))
    refine List.mem_map.mpr ⟨item, ?_, hname⟩
    rw [items_purge]
    exact List.mem_filter.mpr ⟨hitem, decide_eq_true (hname ▸ hpurged)⟩
  refine ⟨segs', ⟨⟨hlaid, fun record hrecord => h.sealed record (hsub.subset hrecord),
    h.increasing.sublist hsub, h.nonneg, hlisted⟩, fun hsome => ?_⟩, ?_⟩
  · obtain ⟨hwrites, hseq⟩ := h.writes hsome
    refine ⟨⟨?_, hlaid⟩, fun record hrecord => hseq record (hsub.subset hrecord)⟩
    obtain ⟨init, segmentId, text, segment, hlast, hsegment, hopens⟩ := hwrites.exists_last
    refine ⟨(segmentId, text), segment, ?_, hsegment, hopens⟩
    have hkept : kept (segmentFile segmentId) = true := by
      rw [← hopens.filePath]
      exact decide_eq_true (h.listed.active_notMem_purged hactive seqNo segment hsegment)
    have hfilter : [(segmentId, text)].filter (fun file => kept (segmentFile file.1)) = [(segmentId, text)] :=
      List.filter_cons_of_pos hkept
    rw [← hfiles, hlast, List.filter_append, hfilter, List.getLast?_concat]
  · intro record hrecord hle
    obtain ⟨seg, hseg, hrecord⟩ := List.mem_flatMap.mp hrecord
    refine List.mem_flatMap.mpr ⟨seg, List.mem_filter.mpr ⟨hseg, decide_eq_true fun hpurged => ?_⟩, hrecord⟩
    exact absurd (h.lt_of_mem_purged hfresh hseg hpurged record hrecord) (not_lt.mpr hle)

/-! ### Runs -/

variable (fmt) in
/-- Calls on one engine: nothing is appended or rotated before `start` where there are files already, and a
purge finds the active segment in `self.segments` and the cached fields as they are in the files. -/
def Careful (e : WALEngine) : WALCall → Prop
  | .append now _ payload =>
    (e.activeSegment = none → e.directory.items = []) ∧ WALRecord.Storable fmt payload ∧ fmt.Exact now
  | .rotateSegment _ => e.activeSegment = none → e.directory.items = []
  | .purgeSegmentsBefore _ => e.ActiveListed ∧ e.Fresh fmt
  | .stop => False
  | .renew => False
  | _ => True

theorem Stored.eq_nil (h : e.Stored fmt segs) (hempty : e.directory.items = []) : segs = [] := by
  have hitems := h.laid.items
  rw [hempty] at hitems
  exact List.map_eq_nil_iff.mp (List.map_eq_nil_iff.mp hitems.symm)

section

variable (h : e.Tracks fmt segs)
include h

theorem Tracks.first (hempty : e.directory.items = []) (now : Rat) :
    (e.createNewSegment fmt now 1).1.Tracks fmt [(1, [])] ∧ segs.flatMap Prod.snd = [] := by
  obtain rfl := h.eq_nil hempty
  exact ⟨h.createNewSegment (fun file hfile => absurd hfile List.not_mem_nil)
    (fun record hrecord => absurd hrecord List.not_mem_nil) now, rfl⟩

theorem Tracks.append_careful (henabled : config.enableWal = true) {recordType : WALRecordType}
    (hcareful : e.Careful fmt (.append now recordType payload)) :
    ∃ e' record segs', e.append fmt config now recordType payload = (e', .ok record) ∧
      e'.Tracks fmt segs' ∧ segs'.flatMap Prod.snd = segs.flatMap Prod.snd ++ [record] := by
  obtain ⟨hempty, hpayload, hnow⟩ := hcareful
  by_cases hnone : e.activeSegment = none
  · obtain ⟨record, hcreate, -⟩ := WALRecord.create_eq_ok hpayload hnow (e.currentSeq + 1) recordType
    obtain ⟨hfirst, hnil⟩ := h.first (hempty hnone) now
    have hsome : (e.createNewSegment fmt now 1).1.activeSegment ≠ none := Option.some_ne_none _
    rw [append_none hnone henabled hcreate, hnil]
    exact hfirst.append hsome henabled hpayload hnow recordType
  · exact h.append hnone henabled hpayload hnow recordType

theorem Tracks.rotate_careful (hempty : e.activeSegment = none → e.directory.items = [])
    (now : Rat) : ∃ segs', (e.rotateSegment fmt now).1.Tracks fmt segs' ∧
      segs'.flatMap Prod.snd = segs.flatMap Prod.snd := by
  by_cases hnone : e.activeSegment = none
  · obtain ⟨hfirst, hnil⟩ := h.first (hempty hnone) now
    refine ⟨[(1, [])], ?_, hnil.symm⟩
    rwa [WALEngine.rotateSegment, hnone]
  · exact h.rotateSegment hnone now

theorem Tracks.step (henabled : config.enableWal = true) {call : WALCall}
    (hcareful : e.Careful fmt call) (hids : e.SixDigits) :
    ∃ segs', (e.step fmt config call).Tracks fmt segs' ∧
      ∀ record ∈ segs.flatMap Prod.snd ++ e.appends fmt config call,
        (∀ seqNo, call = .purgeSegmentsBefore seqNo → seqNo ≤ record.seqNo) → record ∈ segs'.flatMap Prod.snd := by
  cases call with
  | append now recordType payload =>
    obtain ⟨e', record, segs', happend, htracks, hrecords⟩ := h.append_careful henabled hcareful
    refine ⟨segs', ?_, fun r hr _ => ?_⟩
    · rwa [WALEngine.step, happend]
    · rwa [appends, happend, ← hrecords] at hr
  | start now =>
    obtain ⟨segs', htracks, hrecords⟩ := h.start hids now
    exact ⟨segs', htracks, fun r hr _ => hrecords ▸ List.append_nil (segs.flatMap Prod.snd) ▸ hr⟩
  | rotateSegment now =>
    obtain ⟨segs', htracks, hrecords⟩ := h.rotate_careful hcareful now
    exact ⟨segs', htracks, fun r hr _ => hrecords ▸ List.append_nil (segs.flatMap Prod.snd) ▸ hr⟩
  | iterAllRecords now verifyCrc =>
    exact ⟨segs, h.discover hids now, fun r hr _ => List.append_nil (segs.flatMap Prod.snd) ▸ hr⟩
  | purgeSegmentsBefore seqNo =>
    obtain ⟨segs', htracks, hkept⟩ := h.purge hcareful.1 hcareful.2 seqNo
    exact ⟨segs', htracks, fun r hr hle =>
      hkept r (List.append_nil (segs.flatMap Prod.snd) ▸ hr) (hle seqNo rfl)⟩
  | stop | renew => exact hcareful.elim

end

theorem tracks_new {directory : Directory} (hlaid : HasFiles directory (filesOf fmt segs))
    (hsealed : ∀ record ∈ segs.flatMap Prod.snd, record.Sealed fmt)
    (hincreasing : Increasing (segs.flatMap Prod.snd)) : (new directory).Tracks fmt segs := by
  have hlisted : (new directory).Listed :=
    ⟨fun _ hmem => absurd hmem List.not_mem_nil, List.nodup_nil, fun _ hmem => absurd hmem List.not_mem_nil,
      fun _ hmem => absurd hmem (Option.not_mem_none _), fun _ hmem => absurd hmem (Option.not_mem_none _)⟩
  exact ⟨⟨hlaid, hsealed, hincreasing, le_rfl, hlisted⟩, fun hactive => absurd rfl hactive⟩

theorem Tracks.after (h : e.Tracks fmt segs) (henabled : config.enableWal = true) {calls : List WALCall}
    (halong : Along (WALEngine.step fmt config) (fun e call => e.Careful fmt call ∧ e.SixDigits) e calls) :
    ∃ segs', (e.after fmt config calls).Tracks fmt segs' ∧
      ∀ record ∈ segs.flatMap Prod.snd ++ e.appended fmt config calls,
        (∀ seqNo, .purgeSegmentsBefore seqNo ∈ calls → seqNo ≤ record.seqNo) → record ∈ segs'.flatMap Prod.snd := by
  induction calls using List.reverseRecOn with
  | nil => exact ⟨segs, h, fun record hrecord _ => List.append_nil (segs.flatMap Prod.snd) ▸ hrecord⟩
  | append_singleton calls call ih =>
    obtain ⟨segs₁, htracks₁, hkept₁⟩ := ih halong.of_append_left
    obtain ⟨hcareful, hids⟩ := halong.last
    obtain ⟨segs₂, htracks₂, hkept₂⟩ := htracks₁.step henabled hcareful hids
    refine ⟨segs₂, ?_, fun record hrecord hle => ?_⟩
    · rwa [WALEngine.after, run_append]
    · rw [appended, emitted_concat, ← List.append_assoc] at hrecord
      refine hkept₂ record ?_ fun seqNo hcall => hle seqNo (hcall ▸ List.mem_append_right _ List.mem_cons_self)
      rcases List.mem_append.mp hrecord with hold | hnew
      · exact List.mem_append_left _ (hkept₁ record hold fun seqNo hmem =>
          hle seqNo (List.mem_append_left _ hmem))
      · exact List.mem_append_right _ hnew

/-- **Purging destroys nothing that is live**: the file of the active segment stays as it is, no record from
`seqNo` on is lost, and what no purge of the run was asked to drop is yielded. -/
theorem purge_keeps_live (fmt : FloatFormat Rat) (config : StorageConfig)
    (henabled : config.enableWal = true) {directory : Directory} {segs : List (Nat × List WALRecord)}
    (hlaid : HasFiles directory (filesOf fmt segs))
    (hsealed : ∀ record ∈ segs.flatMap Prod.snd, record.Sealed fmt)
    (hincreasing : Increasing (segs.flatMap Prod.snd)) (calls : List WALCall) (seqNo : Int)
    (h : Along (WALEngine.step fmt config) (fun e call => e.Careful fmt call ∧ e.SixDigits) (new directory)
      (calls ++ [.purgeSegmentsBefore seqNo])) (now : Rat) :
    let e := (new directory).after fmt config calls
    let e' := e.purgeSegmentsBefore seqNo
    (∀ segment ∈ e.activeSegment, ∃ text, e.directory.get? segment.filePath = some text ∧
        e'.directory.get? segment.filePath = some text) ∧
      (∀ record ∈ (e.iterAllRecords fmt now true).2, seqNo ≤ record.seqNo →
        record ∈ (e'.iterAllRecords fmt now true).2) ∧
      ∀ record ∈ segs.flatMap Prod.snd ++ (new directory).appended fmt config calls,
        (∀ seqNo', .purgeSegmentsBefore seqNo' ∈ calls ++ [.purgeSegmentsBefore seqNo] →
          seqNo' ≤ record.seqNo) → record ∈ (e'.iterAllRecords fmt now true).2 := by
  intro e e'
  obtain ⟨segs₁, htracks₁, hkept₁⟩ := (tracks_new hlaid hsealed hincreasing).after henabled h.of_append_left
  obtain ⟨⟨hactive, hfresh⟩, -⟩ := h.last
  obtain ⟨segs₂, htracks₂, hkept₂⟩ := htracks₁.purge hactive hfresh seqNo
  refine ⟨fun segment hsegment => ?_, fun record hrecord hle => ?_, fun record hrecord hle => ?_⟩
  · have hsome : e.activeSegment ≠ none := Option.ne_none_iff_exists'.mpr ⟨segment, hsegment⟩
    obtain ⟨init, segmentId, text, segment', hfiles, hsegment', hopens⟩ := (htracks₁.writes hsome).1.exists_last
    cases hsegment'.symm.trans hsegment
    have hmem : (segmentId, text) ∈ filesOf fmt segs₁ := hfiles ▸ List.mem_append_right _ List.mem_cons_self
    have hname := hopens.filePath
    have hget := htracks₁.laid.get? hmem
    refine ⟨text, hname ▸ hget, ?_⟩
    have hkept := htracks₁.listed.active_notMem_purged hactive seqNo segment hsegment
    rw [← Dict.mem_items_iff, items_purge]
    refine List.mem_filter.mpr ⟨?_, decide_eq_true hkept⟩
    rwa [Dict.mem_items_iff, hname]
  · rw [htracks₁.mem_iterAllRecords] at hrecord
    exact (htracks₂.mem_iterAllRecords now record).mpr (hkept₂ record hrecord hle)
  · have hold := hkept₁ record hrecord fun seqNo' hmem => hle seqNo' (List.mem_append_left _ hmem)
    have hlast := hle seqNo (List.mem_append_right _ List.mem_cons_self)
    exact (htracks₂.mem_iterAllRecords now record).mpr (hkept₂ record hold hlast)

def rotated : List WALCall :=
  [.start 1, .append 1 .entry [], .rotateSegment 1, .append 2 .entry []]

theorem purge_keeps_live_rotated :
    let e := (new Dict.empty).after digitFloats ⟨1000, true⟩ rotated
    let e' := e.purgeSegmentsBefore 2
    (∀ segment ∈ e.activeSegment, ∃ text, e.directory.get? segment.filePath = some text ∧
        e'.directory.get? segment.filePath = some text) ∧
      (e.iterAllRecords digitFloats 3 true).2.map WALRecord.seqNo = [1, 2] ∧
      (e'.iterAllRecords digitFloats 3 true).2.map WALRecord.seqNo = [2] := by
  have hempty : WALRecord.Storable digitFloats [] := ⟨rfl, by simp [Value.jsonItems], trivial⟩
  have hcareful : Along (WALEngine.step digitFloats ⟨1000, true⟩)
      (fun e call => e.Careful digitFloats call ∧ e.SixDigits) (new Dict.empty)
      (rotated ++ [.purgeSegmentsBefore 2]) :=
    ⟨⟨trivial, by decide +kernel⟩, ⟨⟨by decide +kernel, hempty, 1, by decide, rfl⟩, by decide +kernel⟩,
      ⟨fun hnone => absurd hnone (by decide +kernel), by decide +kernel⟩,
      ⟨⟨by decide +kernel, hempty, 2, by decide, rfl⟩, by decide +kernel⟩,
      ⟨⟨by decide +kernel, by decide +kernel⟩, by decide +kernel⟩, trivial⟩
  have hlaid : HasFiles Dict.empty (filesOf digitFloats []) := ⟨rfl, List.Pairwise.nil⟩
  have hlive := purge_keeps_live digitFloats ⟨1000, true⟩ rfl hlaid (by simp)
    ⟨List.Pairwise.nil, by simp⟩ rotated 2 hcareful 3
  exact ⟨hlive.1, by decide +kernel, by decide +kernel⟩

/-- After a recovery, the second record is appended to the only segment, through the old object. The purge
finds the new object, whose last record is the first one, and deletes the file. -/
theorem purge_deletes_active :
    let e := (new Dict.empty).after digitFloats ⟨1000, true⟩
      [.start 1, .append 1 .entry [], .iterAllRecords 1 true, .append 2 .entry []]
    let e' := e.purgeSegmentsBefore 2
    e.activeSegment.map filePath = some (segmentFile 1) ∧
      (e.iterAllRecords digitFloats 3 true).2.map WALRecord.seqNo = [1, 2] ∧
      e'.directory.get? (segmentFile 1) = none ∧ (e'.iterAllRecords digitFloats 3 true).2 = [] := by
  decide +kernel

end WALEngine

end MeshWeaver
