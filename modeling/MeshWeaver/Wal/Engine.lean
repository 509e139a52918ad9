import MeshWeaver.Wal.Record

/-!
# The write-ahead log

`WALSegment` and `WALEngine` over the directory with the segment files. Every append flushes its line, so a
file is the text that was appended to it, whether or not it is synced. Segments are objects: the active one
may or may not be among those of `self.segments`, and two of them may stand for one file. The path of the
directory has no `*`, `?` or `[`, which `glob` would read as patterns, and every file is UTF-8.
-/

namespace MeshWeaver

open Lib
open Lib.Json (FloatFormat)

structure StorageConfig where
  maxSegmentSizeBytes : Int
  enableWal : Bool

/-- The texts of the files in `wal_dir`, by their names. There are only segments. -/
abbrev Directory := Dict Text Text

/-- `f"segment_{segment_id:06d}.wal"` -/
def segmentFile (segmentId : Nat) : Text :=
  "segment_".toList ++ Files.padded 6 segmentId ++ ".wal".toList

/-- `int(base.replace("segment_", "").replace(".wal", ""))` -/
def segmentId? (base : Text) : Option Nat :=
  let digits := (base.drop 8).take (base.length - 12)
  if digits ≠ [] ∧ digits.all Char.isDigit then some (Nat.ofDigitChars 10 digits 0) else none

/-- `WALSegment`; `ref` is the identity of the object and `closed` the state of its file handle. -/
structure WALSegment where
  ref : Nat
  filePath : Text
  segmentId : Nat
  recordCount : Nat
  startSeq : Int
  endSeq : Int
  closed : Bool

namespace WALSegment

variable (fmt : FloatFormat Rat)

/-- The counters after a record that was scanned or appended. -/
def count (segment : WALSegment) (record : WALRecord) : WALSegment :=
  { segment with
    startSeq := if segment.startSeq = -1 then record.seqNo else segment.startSeq
    endSeq := record.seqNo
    recordCount := segment.recordCount + 1 }

/-- `WALSegment(file_path, segment_id)`: the file, which has this text, is scanned. -/
def opened (now : Rat) (ref : Nat) (filePath : Text) (segmentId : Nat) (text : Text) : WALSegment :=
  (Files.records (WALRecord.read fmt false now) text).foldl count
    { ref, filePath, segmentId, recordCount := 0, startSeq := -1, endSeq := -1, closed := false }

end WALSegment

def byteSize (text : Text) : Nat := (text.map Char.utf8Size).sum

/-- `WALEngine` with the directory it works on; `created` segments were made so far. -/
structure WALEngine where
  directory : Directory
  currentSeq : Int
  activeSegment : Option WALSegment
  segments : List WALSegment
  running : Bool
  created : Nat

namespace WALEngine

variable (fmt : FloatFormat Rat) (config : StorageConfig) (now : Rat)

def new (directory : Directory) : WALEngine :=
  { directory, currentSeq := 0, activeSegment := none, segments := [], running := false, created := 0 }

variable (e : WALEngine)

def text (name : Text) : Text := (e.directory.get? name).getD []

/-- `sorted(glob.glob(pattern))` -/
def segmentFiles : List Text := e.directory.keys.insertionSort fun a b => Text.precedes a b

/-- The body of the loop of `_discover_segments`. -/
def discoverSegment (name : Text) : WALEngine :=
  match segmentId? name with
  | none => e
  | some segmentId =>
    let segment := WALSegment.opened fmt now e.created name segmentId (e.text name)
    { e with
      segments := e.segments ++ [segment]
      currentSeq := if segment.endSeq > e.currentSeq then segment.endSeq else e.currentSeq
      created := e.created + 1 }

def discoverSegments : WALEngine :=
  e.segmentFiles.foldl (discoverSegment fmt now) { e with segments := [] }

/-- `_create_new_segment`, with the segment that it returns. A file that is missing is created. -/
def createNewSegment (segmentId : Nat) : WALEngine × WALSegment :=
  let name := segmentFile segmentId
  let segment := WALSegment.opened fmt now e.created name segmentId (e.text name)
  ({ e with
     directory := e.directory.insert name (e.text name)
     segments := e.segments ++ [segment]
     activeSegment := some segment
     created := e.created + 1 }, segment)

def start : WALEngine :=
  let e₁ := e.discoverSegments fmt now
  let e₂ :=
    match e₁.segments.getLast? with
    | none => (e₁.createNewSegment fmt now 1).1
    | some segment =>
      { e₁ with
        activeSegment := some segment
        currentSeq := if segment.endSeq ≠ -1 then segment.endSeq else e₁.currentSeq }
  { e₂ with running := true }

/-- A change of the object of a segment, wherever it is referred to. -/
def update (segment : WALSegment) : WALEngine :=
  let change (other : WALSegment) : WALSegment := if other.ref = segment.ref then segment else other
  { e with segments := e.segments.map change, activeSegment := e.activeSegment.map change }

def close (segment : WALSegment) : WALEngine := e.update { segment with closed := true }

def stop : WALEngine :=
  let e₁ := { e with running := false }
  match e.activeSegment with
  | none => e₁
  | some segment => e₁.close segment

def rotateSegment : WALEngine × WALSegment :=
  match e.activeSegment with
  | none => e.createNewSegment fmt now 1
  | some segment => (e.close segment).createNewSegment fmt now (segment.segmentId + 1)

/-- The segment that `append` writes to: it rotates where the active one is full. -/
def writable : WALEngine × WALSegment :=
  let (e₁, segment) :=
    match e.activeSegment with
    | none => e.createNewSegment fmt now 1
    | some segment => (e, segment)
  if byteSize (e₁.text segment.filePath) ≥ config.maxSegmentSizeBytes then
    (e₁.close segment).createNewSegment fmt now (segment.segmentId + 1)
  else (e₁, segment)

/-- `segment.append(record)`. What is written to a file that was deleted is in no file. -/
def write (segment : WALSegment) (record : WALRecord) : WALEngine × Except PyError WALRecord :=
  if segment.closed then (e, .error (.valueError "I/O operation on closed file."))
  else
    let e₁ := e.update (segment.count record)
    match e.directory.get? segment.filePath with
    | none => (e₁, .ok record)
    | some text =>
      let line := record.text fmt ++ ['\n']
      ({ e₁ with directory := e.directory.insert segment.filePath (text ++ line) }, .ok record)

def append (recordType : WALRecordType) (payload : List (String × Value)) :
    WALEngine × Except PyError WALRecord :=
  let e₁ := { e with currentSeq := e.currentSeq + 1 }
  match WALRecord.create fmt e₁.currentSeq recordType payload now with
  | .error error => (e₁, .error error)
  | .ok record =>
    if config.enableWal then
      let (e₂, segment) := e₁.writable fmt config now
      e₂.write fmt segment record
    else (e₁, .ok record)

/-- The records that `iter_all_records(verify_crc)` yields, and the engine behind it. -/
def iterAllRecords (verifyCrc : Bool) : WALEngine × List WALRecord :=
  let e₁ := e.discoverSegments fmt now
  (e₁, e₁.segments.flatMap fun segment =>
    Files.records (WALRecord.read fmt verifyCrc now) (e₁.text segment.filePath))

/-- What `purge_segments_before(seq_no)` deletes: the active segment is recognised by its identity. -/
def purges (seqNo : Int) (segment : WALSegment) : Bool :=
  e.activeSegment.map WALSegment.ref ≠ some segment.ref && segment.endSeq ≠ -1 && segment.endSeq < seqNo

def purgeSegmentsBefore (seqNo : Int) : WALEngine :=
  let remove (directory : Directory) (segment : WALSegment) : Directory := directory.erase segment.filePath
  { e with
    directory := (e.segments.filter (e.purges seqNo)).foldl remove e.directory
    segments := e.segments.filter fun segment => !e.purges seqNo segment }

end WALEngine

/-! ### Runs -/

/-- A call, with what `time.time()` returns; `renew` is a new engine on the same directory. -/
inductive WALCall where
  | start (now : Rat)
  | stop
  | renew
  | append (now : Rat) (recordType : WALRecordType) (payload : List (String × Value))
  | rotateSegment (now : Rat)
  | iterAllRecords (now : Rat) (verifyCrc : Bool)
  | purgeSegmentsBefore (seqNo : Int)

namespace WALEngine

variable (fmt : FloatFormat Rat) (config : StorageConfig)

def step (e : WALEngine) : WALCall → WALEngine
  | .start now => e.start fmt now
  | .stop => e.stop
  | .renew => new e.directory
  | .append now recordType payload => (e.append fmt config now recordType payload).1
  | .rotateSegment now => (e.rotateSegment fmt now).1
  | .iterAllRecords now verifyCrc => (e.iterAllRecords fmt now verifyCrc).1
  | .purgeSegmentsBefore seqNo => e.purgeSegmentsBefore seqNo

def appends (e : WALEngine) : WALCall → List WALRecord
  | .append now recordType payload =>
    match (e.append fmt config now recordType payload).2 with
    | .ok record => [record]
    | .error _ => []
  | _ => []

def after (e : WALEngine) (calls : List WALCall) : WALEngine := run (step fmt config) e calls

def appended (e : WALEngine) (calls : List WALCall) : List WALRecord :=
  emitted (step fmt config) (appends fmt config) e calls

end WALEngine

end MeshWeaver
