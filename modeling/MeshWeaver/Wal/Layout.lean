import MeshWeaver.Wal.Engine

/-!
# The files of the log

The directory of an engine as a list of numbered files in the order of their ids, which is the order of
their names as long as the ids have six digits. Discovering, rotating and appending are described by what
they do to this list: `Files.appendLine` is an append.
-/

namespace MeshWeaver

open Lib WALSegment
open Lib.Files (padded records readAll appendLine content IsLine)
open Lib.Json (FloatFormat)

/-! ### Names -/

theorem segmentId?_segmentFile (segmentId : Nat) : segmentId? (segmentFile segmentId) = some segmentId := by
  have hdigits : ((segmentFile segmentId).drop 8).take ((segmentFile segmentId).length - 12) =
      padded 6 segmentId := Files.take_drop_middle _ _ _ (by decide) (by decide)
  have hall : (padded 6 segmentId).all Char.isDigit = true :=
    List.all_eq_true.mpr (Files.isDigit_padded 6 segmentId)
  unfold segmentId?
  rw [hdigits]
  rw [if_pos ⟨Files.padded_ne_nil 6 segmentId, hall⟩, Files.ofDigitChars_padded]

theorem segmentFile_injective : Function.Injective segmentFile := by
  intro a b h
  have hids := congrArg segmentId? h
  rwa [segmentId?_segmentFile, segmentId?_segmentFile, Option.some_inj] at hids

theorem segmentFile_notMem {files : List (Nat × Text)} {segmentId : Nat}
    (hnew : ∀ file ∈ files, file.1 < segmentId) : segmentFile segmentId ∉ files.map fun file => segmentFile file.1 := by
  intro hmem
  obtain ⟨file, hfile, hname⟩ := List.mem_map.mp hmem
  exact absurd (segmentFile_injective hname) (hnew file hfile).ne

theorem segmentFile_precedes {a b : Nat} (hab : a < b) (hb : b ≤ 999999) :
    Text.precedes (segmentFile a) (segmentFile b) = true := by
  unfold segmentFile
  rw [List.append_assoc]
  exact (Files.precedes_append_left_eq ..).trans (Files.padded_precedes (by decide) hab (by omega) _ _)

/-! ### Directories -/

/-- The directory has these files, in the order of their ids. -/
structure HasFiles (directory : Directory) (files : List (Nat × Text)) : Prop where
  items : directory.items = files.map fun file => (segmentFile file.1, file.2)
  ordered : (files.map Prod.fst).Pairwise (· < ·)

namespace HasFiles

variable {directory : Directory} {files : List (Nat × Text)} {file : Nat × Text} {segmentId : Nat}

theorem keys (h : HasFiles directory files) : directory.keys = files.map fun file => segmentFile file.1 := by
  rw [Dict.keys, h.items, List.map_map]
  rfl

theorem get? (h : HasFiles directory files) (hfile : file ∈ files) :
    directory.get? (segmentFile file.1) = some file.2 := by
  rw [← Dict.mem_items_iff, h.items]
  exact List.mem_map_of_mem hfile

section

variable (h : HasFiles directory files)
include h

theorem notMem_keys (hnew : ∀ file ∈ files, file.1 < segmentId) : segmentFile segmentId ∉ directory.keys := by
  rw [h.keys]
  exact segmentFile_notMem hnew

theorem insertionSort_keys (hids : ∀ file ∈ files, file.1 ≤ 999999) :
    (directory.keys.insertionSort fun a b => Text.precedes a b) = files.map fun file => segmentFile file.1 := by
  rw [h.keys]
  refine List.Pairwise.insertionSort_eq ?_
  rw [List.pairwise_map]
  refine (List.pairwise_map.mp h.ordered).imp_of_mem ?_
  intro a b _ hb hab
  exact segmentFile_precedes hab (hids b hb)

theorem insert_new (hnew : ∀ file ∈ files, file.1 < segmentId) (text : Text) :
    HasFiles (directory.insert (segmentFile segmentId) text) (files ++ [(segmentId, text)]) := by
  constructor
  · change Dict.assign _ _ directory.items = _
    rw [Dict.assign_of_notMem (h.notMem_keys hnew), h.items, List.map_append]
    rfl
  · rw [List.map_append, List.pairwise_append]
    refine ⟨h.ordered, List.pairwise_singleton _ _, ?_⟩
    intro a ha b hb
    obtain ⟨file, hfile, rfl⟩ := List.mem_map.mp ha
    rw [List.mem_singleton.mp hb]
    exact hnew file hfile

end

theorem lt_last {last : Nat × Text} (h : HasFiles directory (files ++ [last])) (hfile : file ∈ files) :
    file.1 < last.1 := by
  have hordered := h.ordered
  rw [List.map_append, List.pairwise_append] at hordered
  exact hordered.2.2 file.1 (List.mem_map_of_mem hfile) last.1 List.mem_cons_self

theorem lt_next {text : Text} (h : HasFiles directory (files ++ [(segmentId, text)])) :
    ∀ file ∈ files ++ [(segmentId, text)], file.1 < segmentId + 1 := by
  intro file hfile
  rcases List.mem_append.mp hfile with hfile | hfile
  · exact (h.lt_last hfile).trans (Nat.lt_succ_self _)
  · rw [List.mem_singleton.mp hfile]
    exact Nat.lt_succ_self _

theorem insert_last {text : Text} (h : HasFiles directory (files ++ [(segmentId, text)])) (text' : Text) :
    HasFiles (directory.insert (segmentFile segmentId) text') (files ++ [(segmentId, text')]) := by
  constructor
  · have hkey : segmentFile segmentId ∉ (files.map fun file => (segmentFile file.1, file.2)).map Prod.fst := by
      rw [List.map_map]
      exact segmentFile_notMem fun file => h.lt_last
    change Dict.assign _ _ directory.items = _
    rw [h.items, List.map_append, List.map_append]
    exact Dict.assign_concat hkey
  · have hordered := h.ordered
    rw [List.map_append] at hordered ⊢
    exact hordered

end HasFiles

/-! ### Discovering -/

def lastSeq (records : List WALRecord) : Int := (records.getLast?.map WALRecord.seqNo).getD (-1)

namespace WALSegment

theorem foldl_count_spec (rs : List WALRecord) (segment : WALSegment) :
    rs.foldl count segment =
      { rs.foldl count segment with
        ref := segment.ref
        filePath := segment.filePath
        segmentId := segment.segmentId
        endSeq := (rs.getLast?.map WALRecord.seqNo).getD segment.endSeq
        closed := segment.closed } := by
  induction rs generalizing segment with
  | nil => rfl
  | cons r rs ih =>
    rw [List.foldl_cons, ih (segment.count r), List.getLast?_cons]
    cases rs.getLast? with
    | none | some last => rfl

variable (fmt : FloatFormat Rat) (now : Rat) (ref : Nat) (filePath : Text) (segmentId : Nat) (text : Text)

@[simp] theorem opened_ref : (opened fmt now ref filePath segmentId text).ref = ref := by
  rw [opened, foldl_count_spec]

@[simp] theorem opened_filePath : (opened fmt now ref filePath segmentId text).filePath = filePath := by
  rw [opened, foldl_count_spec]

@[simp] theorem opened_segmentId : (opened fmt now ref filePath segmentId text).segmentId = segmentId := by
  rw [opened, foldl_count_spec]

@[simp] theorem opened_closed : (opened fmt now ref filePath segmentId text).closed = false := by
  rw [opened, foldl_count_spec]

@[simp] theorem opened_endSeq : (opened fmt now ref filePath segmentId text).endSeq =
    lastSeq (records (WALRecord.read fmt false now) text) := by
  rw [opened, foldl_count_spec]
  rfl

end WALSegment

section
variable (fmt : FloatFormat Rat) (now : Rat)

/-- The segments of files, with new identities from `n` on. -/
def scanned : Nat → List (Nat × Text) → List WALSegment
  | _, [] => []
  | n, file :: files =>
    opened fmt now n (segmentFile file.1) file.1 file.2 :: scanned (n + 1) files

theorem scanned_concat (n : Nat) (files : List (Nat × Text)) (file : Nat × Text) :
    scanned fmt now n (files ++ [file]) = scanned fmt now n files ++
      [opened fmt now (n + files.length) (segmentFile file.1) file.1 file.2] := by
  induction files generalizing n with
  | nil => rfl
  | cons first files ih =>
    rw [List.cons_append, scanned, ih, scanned, List.length_cons, Nat.add_right_comm n 1, ← Nat.add_assoc]
    rfl

theorem scanned_filePath (n : Nat) (files : List (Nat × Text)) :
    (scanned fmt now n files).map filePath = files.map fun file => segmentFile file.1 := by
  induction files generalizing n with
  | nil => rfl
  | cons file files ih => rw [scanned, List.map_cons, List.map_cons, ih, opened_filePath]

/-- The highest number that was seen, behind a file. -/
def latest (seq : Int) (file : Nat × Text) : Int :=
  max seq (lastSeq (records (WALRecord.read fmt false now) file.2))

namespace WALEngine

variable {e : WALEngine} {files : List (Nat × Text)}

theorem foldl_discoverSegment (htext : ∀ file ∈ files, e.text (segmentFile file.1) = file.2) :
    (files.map fun file => segmentFile file.1).foldl (discoverSegment fmt now) e =
      { e with
        segments := e.segments ++ scanned fmt now e.created files
        currentSeq := files.foldl (latest fmt now) e.currentSeq
        created := e.created + files.length } := by
  induction files generalizing e with
  | nil => simp [scanned]
  | cons file files ih =>
    have hone : e.discoverSegment fmt now (segmentFile file.1) =
        { e with
          segments := e.segments ++
            [opened fmt now e.created (segmentFile file.1) file.1 file.2]
          currentSeq := latest fmt now e.currentSeq file
          created := e.created + 1 } := by
      unfold discoverSegment
      rw [segmentId?_segmentFile, htext file List.mem_cons_self]
      simp only [opened_endSeq, latest, gt_iff_lt, max_def_lt]
    rw [List.map_cons, List.foldl_cons, hone]
    rw [ih]
    · simp [scanned, Nat.add_assoc, Nat.add_comm 1]
    · exact fun file hfile => htext file (List.mem_cons_of_mem _ hfile)

theorem text_of_hasFiles (h : HasFiles e.directory files) : ∀ file ∈ files, e.text (segmentFile file.1) = file.2 := by
  intro file hfile
  rw [text, h.get? hfile]
  rfl

section
variable {sorted : List (Nat × Text)}
  (hnames : e.segmentFiles = sorted.map fun file => segmentFile file.1)
  (htext : ∀ file ∈ sorted, e.text (segmentFile file.1) = file.2)
include hnames htext

theorem discoverSegments_of_names :
    e.discoverSegments fmt now =
      { e with
        segments := scanned fmt now e.created sorted
        currentSeq := sorted.foldl (latest fmt now) e.currentSeq
        created := e.created + sorted.length } := by
  rw [discoverSegments, hnames, foldl_discoverSegment]
  · simp
  · exact htext

theorem iterAllRecords_of_names (verifyCrc : Bool) :
    (e.iterAllRecords fmt now verifyCrc).2 = readAll (WALRecord.read fmt verifyCrc now) sorted := by
  unfold iterAllRecords
  rw [discoverSegments_of_names fmt now hnames htext]
  change (scanned fmt now e.created sorted).flatMap (fun segment =>
    records (WALRecord.read fmt verifyCrc now) (e.text segment.filePath)) = _
  rw [← List.flatMap_map filePath fun name =>
    records (WALRecord.read fmt verifyCrc now) (e.text name), scanned_filePath, List.flatMap_map]
  refine List.flatMap_congr fun file hfile => ?_
  rw [htext file hfile]

end

variable (h : HasFiles e.directory files)
include h

theorem exists_sorted : ∃ sorted : List (Nat × Text), sorted.Perm files ∧
    e.segmentFiles = (sorted.map fun file => segmentFile file.1) ∧
    ∀ file ∈ sorted, e.text (segmentFile file.1) = file.2 := by
  refine ⟨files.insertionSort fun a b => Text.precedes (segmentFile a.1) (segmentFile b.1),
    List.perm_insertionSort _ _, ?_, fun file hfile => ?_⟩
  · rw [segmentFiles, h.keys]
    symm
    apply List.map_insertionSort
    exact fun _ _ _ _ => Iff.rfl
  · exact text_of_hasFiles h file ((List.mem_insertionSort _).mp hfile)

theorem iterAllRecords_perm (verifyCrc : Bool) :
    (e.iterAllRecords fmt now verifyCrc).2.Perm (readAll (WALRecord.read fmt verifyCrc now) files) := by
  obtain ⟨sorted, hperm, hnames, htext⟩ := exists_sorted h
  rw [iterAllRecords_of_names fmt now hnames htext]
  exact hperm.flatMap_right _

theorem directory_start (hne : files ≠ []) : (e.start fmt now).directory = e.directory := by
  obtain ⟨sorted, hperm, hnames, htext⟩ := exists_sorted h
  obtain ⟨init, file, rfl⟩ := (List.eq_nil_or_concat' sorted).resolve_left fun hnil =>
    hne (List.nil_perm.mp (hnil ▸ hperm))
  unfold start
  rw [discoverSegments_of_names fmt now hnames htext, scanned_concat]
  dsimp only
  rw [List.getLast?_concat]

variable (hids : ∀ file ∈ files, file.1 ≤ 999999)
include hids

theorem discoverSegments_eq :
    e.discoverSegments fmt now =
      { e with
        segments := scanned fmt now e.created files
        currentSeq := files.foldl (latest fmt now) e.currentSeq
        created := e.created + files.length } :=
  discoverSegments_of_names fmt now (h.insertionSort_keys hids) (text_of_hasFiles h)

theorem iterAllRecords_eq (verifyCrc : Bool) :
    (e.iterAllRecords fmt now verifyCrc).2 = readAll (WALRecord.read fmt verifyCrc now) files :=
  iterAllRecords_of_names fmt now (h.insertionSort_keys hids) (text_of_hasFiles h) verifyCrc

end WALEngine

end

/-! ### Writing -/

/-- A file with this text takes no more records. -/
def StorageConfig.full (config : StorageConfig) (text : Text) : Bool :=
  (byteSize text : Int) ≥ config.maxSegmentSizeBytes

namespace WALEngine

/-- The segment stands for the file, and its handle is open. -/
structure Opens (segment : WALSegment) (segmentId : Nat) : Prop where
  filePath : segment.filePath = segmentFile segmentId
  segmentId : segment.segmentId = segmentId
  closed : segment.closed = false

/-- The engine writes to the last of these files. -/
structure Writes (e : WALEngine) (files : List (Nat × Text)) : Prop where
  active : ∃ file segment, files.getLast? = some file ∧ e.activeSegment = some segment ∧
    Opens segment file.1
  files : HasFiles e.directory files

variable (fmt : FloatFormat Rat) (config : StorageConfig) (now : Rat) {e : WALEngine}
  {files : List (Nat × Text)} {segmentId : Nat} {text : Text} {segment : WALSegment}
  {payload : List (String × Value)}
theorem opens_opened (ref segmentId : Nat) (text : Text) :
    Opens (opened fmt now ref (segmentFile segmentId) segmentId text) segmentId :=
  ⟨opened_filePath .., opened_segmentId .., opened_closed ..⟩

theorem Opens.count (h : Opens segment segmentId) (record : WALRecord) :
    Opens (segment.count record) segmentId := ⟨h.filePath, h.segmentId, h.closed⟩

theorem Writes.of_last (h : HasFiles e.directory (files ++ [(segmentId, text)]))
    (hactive : e.activeSegment = some segment) (hopens : Opens segment segmentId) :
    e.Writes (files ++ [(segmentId, text)]) :=
  ⟨⟨_, segment, List.getLast?_concat, hactive, hopens⟩, h⟩

theorem Writes.exists_last (h : e.Writes files) : ∃ init segmentId text segment,
    files = init ++ [(segmentId, text)] ∧ e.activeSegment = some segment ∧ Opens segment segmentId := by
  obtain ⟨file, segment, hlast, hactive, hopens⟩ := h.active
  obtain ⟨init, rfl⟩ := List.getLast?_eq_some_iff.mp hlast
  exact ⟨init, file.1, file.2, segment, rfl, hactive, hopens⟩

theorem createNewSegment_spec (h : HasFiles e.directory files) (hnew : ∀ file ∈ files, file.1 < segmentId) :
    ∃ e' segment, e.createNewSegment fmt now segmentId = (e', segment) ∧
      e'.Writes (files ++ [(segmentId, [])]) ∧ e'.activeSegment = some segment ∧
      e'.currentSeq = e.currentSeq ∧ e'.running = e.running := by
  have htext : e.text (segmentFile segmentId) = [] := by
    rw [WALEngine.text, (Dict.get?_eq_none_iff _ _).mpr (h.notMem_keys hnew)]
    rfl
  have hfiles : HasFiles (e.createNewSegment fmt now segmentId).1.directory (files ++ [(segmentId, [])]) := by
    change HasFiles (e.directory.insert (segmentFile segmentId) (e.text (segmentFile segmentId))) _
    rw [htext]
    exact h.insert_new hnew []
  exact ⟨_, _, rfl, .of_last hfiles rfl (opens_opened fmt now _ _ _), rfl, rfl, rfl⟩

theorem activeSegment_update (hactive : e.activeSegment = some segment) (changed : WALSegment)
    (href : changed.ref = segment.ref) : (e.update changed).activeSegment = some changed := by
  rw [update, hactive]
  exact congrArg some (if_pos href.symm)

theorem writable_eq (h : HasFiles e.directory files) (hfile : (segmentId, text) ∈ files)
    (hactive : e.activeSegment = some segment) (hopens : Opens segment segmentId) :
    e.writable fmt config now =
      if config.full text then (e.close segment).createNewSegment fmt now (segmentId + 1) else (e, segment) := by
  have htext := text_of_hasFiles h _ hfile
  unfold writable
  rw [hactive]
  dsimp only
  rw [hopens.filePath, hopens.segmentId, htext]
  simp only [StorageConfig.full, decide_eq_true_eq]

theorem Writes.write (h : e.Writes (files ++ [(segmentId, text)])) (hactive : e.activeSegment = some segment)
    (record : WALRecord) :
    ∃ e', e.write fmt segment record = (e', .ok record) ∧
      e'.Writes (files ++ [(segmentId, text ++ (record.text fmt ++ ['\n']))]) ∧
      e'.currentSeq = e.currentSeq ∧ e'.running = e.running := by
  obtain ⟨file, segment', hlast, hactive', hopens⟩ := h.active
  rw [List.getLast?_concat, Option.some_inj] at hlast
  subst hlast
  cases hactive.symm.trans hactive'
  have hget := h.files.get? (List.mem_append_right files List.mem_cons_self)
  have hwrite : e.write fmt segment record =
      ({ e.update (segment.count record) with
         directory := e.directory.insert (segmentFile segmentId) (text ++ (record.text fmt ++ ['\n'])) },
        .ok record) := by
    rw [WALEngine.write, hopens.closed, if_neg Bool.false_ne_true, hopens.filePath, hget]
  exact ⟨_, hwrite, .of_last (h.files.insert_last _)
    (activeSegment_update hactive (segment.count record) rfl) (hopens.count record), rfl, rfl⟩

theorem append_eq (henabled : config.enableWal = true) {record : WALRecord} {recordType : WALRecordType}
    (hcreate : WALRecord.create fmt (e.currentSeq + 1) recordType payload now = .ok record) :
    e.append fmt config now recordType payload =
      ({ e with currentSeq := e.currentSeq + 1 }.writable fmt config now).1.write fmt
        ({ e with currentSeq := e.currentSeq + 1 }.writable fmt config now).2 record := by
  unfold WALEngine.append
  dsimp only
  rw [hcreate]
  exact if_pos henabled

theorem Writes.append (h : e.Writes files) (henabled : config.enableWal = true) {record : WALRecord}
    {recordType : WALRecordType}
    (hcreate : WALRecord.create fmt (e.currentSeq + 1) recordType payload now = .ok record) :
    ∃ e', e.append fmt config now recordType payload = (e', .ok record) ∧
      e'.Writes (appendLine config.full (record.text fmt ++ ['\n']) files) ∧
      e'.currentSeq = e.currentSeq + 1 ∧ e'.running = e.running := by
  obtain ⟨init, segmentId, text, segment, rfl, hactive, hopens⟩ := h.exists_last
  let e₁ : WALEngine := { e with currentSeq := e.currentSeq + 1 }
  have hwrites : e₁.Writes (init ++ [(segmentId, text)]) := ⟨h.active, h.files⟩
  have hwritable := writable_eq fmt config now hwrites.files
    (List.mem_append_right init List.mem_cons_self) (show e₁.activeSegment = _ from hactive) hopens
  rw [append_eq fmt config now henabled hcreate, hwritable, Files.appendLine_append _ _ _ (List.cons_ne_nil _ _),
    appendLine]
  split_ifs
  · -- the line is the first one of a new file
    obtain ⟨e₂, next, hnext, hwrites₂, hactive₂, hseq₂, hrunning₂⟩ := createNewSegment_spec fmt now
      (show HasFiles (e₁.close segment).directory _ from hwrites.files) hwrites.files.lt_next
    rw [hnext]
    obtain ⟨e₃, hwrite, hwrites₃, hseq₃, hrunning₃⟩ := hwrites₂.write fmt hactive₂ record
    rw [List.append_assoc, List.nil_append] at hwrites₃
    exact ⟨e₃, hwrite, hwrites₃, hseq₃.trans hseq₂, hrunning₃.trans hrunning₂⟩
  · exact hwrites.write fmt hactive record

theorem Writes.rotateSegment (h : e.Writes files) :
    ∃ segmentId e', (e.rotateSegment fmt now).1 = e' ∧ e'.Writes (files ++ [(segmentId, [])]) ∧
      e'.currentSeq = e.currentSeq ∧ e'.running = e.running := by
  obtain ⟨init, segmentId, text, segment, rfl, hactive, hopens⟩ := h.exists_last
  obtain ⟨e', next, hnext, hwrites, -, hseq, hrunning⟩ := createNewSegment_spec fmt now
    (show HasFiles (e.close segment).directory _ from h.files) h.files.lt_next
  refine ⟨segmentId + 1, e', ?_, hwrites, hseq, hrunning⟩
  rw [WALEngine.rotateSegment, hactive]
  dsimp only
  rw [hopens.segmentId, hnext]

theorem start_nil (h : HasFiles e.directory []) :
    ∃ e', e.start fmt now = e' ∧ e'.Writes [(1, [])] ∧ e'.currentSeq = e.currentSeq ∧ e'.running = true := by
  have hdiscover := discoverSegments_eq fmt now h (fun file hfile => absurd hfile List.not_mem_nil)
  obtain ⟨e', segment, hcreate, hwrites, -, hseq, -⟩ := createNewSegment_spec fmt now
    (show HasFiles (e.discoverSegments fmt now).directory [] by rw [hdiscover]; exact h)
    (fun file hfile => absurd hfile List.not_mem_nil)
  have hsegments : (e.discoverSegments fmt now).segments.getLast? = none := by
    rw [hdiscover]
    rfl
  have hstart : e.start fmt now = { e' with running := true } := by
    unfold start
    dsimp only
    rw [hsegments, hcreate]
  refine ⟨_, hstart, ⟨hwrites.active, hwrites.files⟩, ?_, rfl⟩
  rw [hdiscover] at hseq
  exact hseq

theorem start_concat {file : Nat × Text} (h : HasFiles e.directory (files ++ [file]))
    (hids : ∀ file' ∈ files ++ [file], file'.1 ≤ 999999) :
    ∃ e', e.start fmt now = e' ∧ e'.Writes (files ++ [file]) ∧
      e'.currentSeq = (if lastSeq (records (WALRecord.read fmt false now) file.2) ≠ -1 then
        lastSeq (records (WALRecord.read fmt false now) file.2)
      else (files ++ [file]).foldl (latest fmt now) e.currentSeq) ∧ e'.running = true := by
  have hdiscover := discoverSegments_eq fmt now h hids
  let segment := opened fmt now (e.created + files.length) (segmentFile file.1) file.1 file.2
  have hsegments : (e.discoverSegments fmt now).segments.getLast? = some segment := by
    rw [hdiscover]
    rw [scanned_concat, List.getLast?_concat]
  refine ⟨e.start fmt now, rfl, ?_⟩
  unfold start
  dsimp only
  rw [hsegments, hdiscover]
  refine ⟨.of_last h rfl (opens_opened fmt now _ _ _), ?_, rfl⟩
  dsimp only
  rw [opened_endSeq]

end WALEngine

/-! ### Files of records -/

section
variable (fmt : FloatFormat Rat)

def filesOf (segments : List (Nat × List WALRecord)) : List (Nat × Text) :=
  segments.map fun segment => (segment.1, content (WALRecord.text fmt) segment.2)

variable {fmt} {rs : List WALRecord}

section

variable (hrs : ∀ record ∈ rs, record.Sealed fmt)
include hrs

theorem readable_of_sealed (verifyCrc : Bool) (now : Rat) : ∀ record ∈ rs, IsLine (record.text fmt) ∧
      WALRecord.read fmt verifyCrc now (record.text fmt) = some record :=
  fun record hrecord => ⟨(hrs record hrecord).isLine_text, (hrs record hrecord).read_text verifyCrc now⟩

theorem records_content_of_sealed (verifyCrc : Bool) (now : Rat) (rest : Text) :
    records (WALRecord.read fmt verifyCrc now) (content (WALRecord.text fmt) rs ++ rest) =
      rs ++ records (WALRecord.read fmt verifyCrc now) rest :=
  Files.records_content (readable_of_sealed hrs verifyCrc now) rest

theorem records_content_eq (verifyCrc : Bool) (now : Rat) :
    records (WALRecord.read fmt verifyCrc now) (content (WALRecord.text fmt) rs) = rs := by
  have hread := records_content_of_sealed hrs verifyCrc now []
  rwa [List.append_nil, Files.records_nil, List.append_nil] at hread

end

theorem readAll_filesOf {segments : List (Nat × List WALRecord)}
    (h : ∀ segment ∈ segments, ∀ record ∈ segment.2, record.Sealed fmt) (verifyCrc : Bool) (now : Rat) :
    readAll (WALRecord.read fmt verifyCrc now) (filesOf fmt segments) = segments.flatMap Prod.snd := by
  rw [readAll, filesOf, List.flatMap_map]
  exact List.flatMap_congr fun segment hsegment => records_content_eq (h segment hsegment) verifyCrc now

end

end MeshWeaver
