import MeshWeaver.Wal.Record

/-!
# What a checksum vouches for

`iter_records` over lines of any content: whatever JSON is on a line, whatever `int`, `float` and the formats do
with its values. A line is decoded by the constructor of `WALRecord`, which fills in the checksum if it is 0 or
missing, and is checked afterwards. So the check says something about the line only if the line has a checksum
of its own, and a timestamp.
-/

namespace MeshWeaver

open Lib
open Lib.Files (strip)
open Lib.Json (FloatFormat print)

/-- The built-ins that read a line, for values `V` and floats `F`; none of them returns if it raises. -/
structure Decoder (V F : Type) where
  /-- The fields of the object that `json.loads` returns. -/
  loads : Text → Option (String → Option V)
  int : V → Option Int
  float : V → Option F
  /-- `WALRecordType(v)` -/
  recordType : V → Option WALRecordType
  /-- `json.dumps(v, sort_keys=True)` -/
  dumps : V → Option Text
  /-- `f"{x:.6f}"` -/
  fixed : F → Text

/-- A `WALRecord` of any content. -/
structure LineRecord (V F : Type) where
  seqNo : Int
  recordType : WALRecordType
  payload : V
  timestamp : F
  crc32 : Int
deriving DecidableEq

namespace Decoder

section Definitions

variable {V F : Type} (d : Decoder V F)

def computeCrc32 (record : LineRecord V F) : Option Int := do
  let payload ← d.dumps record.payload
  let raw := Json.intText record.seqNo ++ ':' :: record.recordType.value.toList ++
    ':' :: d.fixed record.timestamp ++ ':' :: payload
  some (Zlib.crc32 (raw.flatMap String.utf8EncodeChar))

def postInit (record : LineRecord V F) : Option (LineRecord V F) :=
  if record.crc32 = 0 then (d.computeCrc32 record).map fun crc32 => { record with crc32 } else some record

/-- `WALRecord.from_dict(data)`; `now` is what `time.time()` returns. -/
def fromDict (now : F) (data : String → Option V) : Option (LineRecord V F) := do
  let seqNo ← (data "seq_no").bind d.int
  let recordType ← (data "record_type").bind d.recordType
  let payload ← data "payload"
  let timestamp ← ((data "timestamp").map d.float).getD (some now)
  let crc32 ← ((data "crc32").map d.int).getD (some 0)
  d.postInit { seqNo, recordType, payload, timestamp, crc32 }

def fromJsonLine (now : F) (line : Text) : Option (LineRecord V F) := (d.loads (strip line)).bind (d.fromDict now)

/-- `iter_records(verify_crc=True)` over the lines of a segment, each record with its line. -/
def iterRecords : (Nat → F) → List Text → List (Text × LineRecord V F)
  | _, [] => []
  | clock, line :: lines =>
    let lineStr := strip line
    if lineStr = [] then iterRecords (fun n => clock (n + 1)) lines
    else
      match d.fromJsonLine (clock 0) lineStr with
      | none => []
      | some record =>
        if d.computeCrc32 record = some record.crc32 then
          (line, record) :: iterRecords (fun n => clock (n + 1)) lines
        else []

def field (line : Text) (name : String) : Option V := (d.loads (strip (strip line))).bind (· name)

/-- The fields of the record are those of the line, and the checksum on the line is the one of these fields. -/
structure Vouched (line : Text) (record : LineRecord V F) : Prop where
  seqNo : (d.field line "seq_no").bind d.int = some record.seqNo
  recordType : (d.field line "record_type").bind d.recordType = some record.recordType
  payload : d.field line "payload" = some record.payload
  timestamp : (d.field line "timestamp").bind d.float = some record.timestamp
  hasCrc32 : (d.field line "crc32").isSome
  crc32 : (d.field line "crc32").bind d.int = d.computeCrc32 record

/-- The line has a timestamp and a checksum, which is not 0 unless that is the checksum of the record. -/
structure Signed (line : Text) (record : LineRecord V F) : Prop where
  timestamp : (d.field line "timestamp").isSome
  crc32 : (d.field line "crc32").isSome
  ne_zero : (d.field line "crc32").bind d.int = some 0 → d.computeCrc32 record = some 0

end Definitions

variable {V F : Type} {d : Decoder V F} {line : Text} {record : LineRecord V F}

theorem of_mem_iterRecords {clock : Nat → F} {lines : List Text} (h : (line, record) ∈ d.iterRecords clock lines) :
    ∃ now, d.fromJsonLine now (strip line) = some record ∧ d.computeCrc32 record = some record.crc32 := by
  induction lines generalizing clock with
  | nil => cases h
  | cons first lines ih =>
    rw [iterRecords] at h
    split_ifs at h with hblank
    · exact ih h
    · cases hread : d.fromJsonLine (clock 0) (strip first) with
      | none =>
        rw [hread] at h
        cases h
      | some read =>
        rw [hread] at h
        dsimp only at h
        split_ifs at h with hcrc
        · rcases List.mem_cons.mp h with heq | hmem
          · cases heq
            exact ⟨clock 0, hread, hcrc⟩
          · exact ih hmem
        · cases h

theorem of_fromJsonLine {now : F} (h : d.fromJsonLine now (strip line) = some record) :
    ∃ crc32, (d.field line "seq_no").bind d.int = some record.seqNo ∧
      (d.field line "record_type").bind d.recordType = some record.recordType ∧
      d.field line "payload" = some record.payload ∧
      ((d.field line "timestamp").map d.float).getD (some now) = some record.timestamp ∧
      ((d.field line "crc32").map d.int).getD (some 0) = some crc32 ∧ (crc32 ≠ 0 → record.crc32 = crc32) := by
  obtain ⟨data, hdata, hfrom⟩ := Option.bind_eq_some_iff.mp h
  have hfield : ∀ name, d.field line name = data name := fun name => by rw [field, hdata]; rfl
  simp only [hfield]
  simp only [fromDict, bind, Option.bind_eq_some_iff] at hfrom
  obtain ⟨seqNo, hseqNo, recordType, htype, payload, hpayload, timestamp, htimestamp, crc32, hcrc32, hinit⟩ := hfrom
  rw [postInit] at hinit
  split_ifs at hinit with hzero
  · obtain ⟨filled, -, rfl⟩ := Option.map_eq_some_iff.mp hinit
    exact ⟨crc32, Option.bind_eq_some_iff.mpr hseqNo, Option.bind_eq_some_iff.mpr htype, hpayload, htimestamp, hcrc32,
      fun hne => absurd hzero hne⟩
  · cases hinit
    exact ⟨crc32, Option.bind_eq_some_iff.mpr hseqNo, Option.bind_eq_some_iff.mpr htype, hpayload, htimestamp, hcrc32,
      fun _ => rfl⟩

/-! ### Lines as they are written -/

/-- The built-ins of the model of records. -/
def ofFormat (fmt : FloatFormat Rat) : Decoder Value Rat where
  loads text :=
    match Json.loads fmt text with
    | some (.obj items) => some fun name => Dict.lookup name (Value.ofJsonItems items)
    | _ => none
  int v := v.toInt.toOption
  float v := v.toFloat.toOption
  recordType v := (WALRecordType.ofValue v).toOption
  dumps v := some (print fmt v.json.sortKeys)
  fixed := fixedPoint

end Decoder

namespace WALRecord

def general (record : WALRecord) : LineRecord Value Rat :=
  ⟨record.seqNo, record.recordType, .dict record.payload, record.timestamp, record.crc32⟩

end WALRecord

namespace Decoder

open WALRecord (numbered)

variable {V F : Type} {line : Text} {record : LineRecord V F}

/-- **When a checksum vouches for a line** that is accepted: exactly if the line is signed. -/
theorem vouched_iff (d : Decoder V F) (clock : Nat → F) (lines : List Text)
    (h : (line, record) ∈ d.iterRecords clock lines) : d.Vouched line record ↔ d.Signed line record := by
  obtain ⟨now, hline, hverified⟩ := of_mem_iterRecords h
  obtain ⟨crc32, hseqNo, htype, hpayload, htimestamp, hcrc32, hkept⟩ := of_fromJsonLine hline
  constructor
  · intro hvouched
    obtain ⟨v, hv, -⟩ := Option.bind_eq_some_iff.mp hvouched.timestamp
    exact ⟨by rw [hv]; rfl, hvouched.hasCrc32, fun hzero => hvouched.crc32.symm.trans hzero⟩
  · rintro ⟨hts, hcrc, hzero⟩
    obtain ⟨ts, hts⟩ := Option.isSome_iff_exists.mp hts
    obtain ⟨v, hv⟩ := Option.isSome_iff_exists.mp hcrc
    rw [hts] at htimestamp
    rw [hv] at hcrc32 hzero
    refine ⟨hseqNo, htype, hpayload, by rw [hts]; exact htimestamp, hcrc, ?_⟩
    have hread : d.int v = some crc32 := hcrc32
    rw [hv, Option.bind_some, hread]
    by_cases hne : crc32 = 0
    · rw [hne] at hread ⊢
      exact (hzero hread).symm
    · rw [hverified, hkept hne]

theorem genuine_line_vouched :
    (ofFormat digitFloats).Vouched ((numbered 1).text digitFloats) (numbered 1).general :=
  (vouched_iff _ (fun _ => 0) [(numbered 1).text digitFloats] (by decide +kernel)).mpr
    ⟨by decide +kernel, by decide +kernel, by decide +kernel⟩

/-- **An altered line is accepted**: one with the payload of record 2 in record 1 and the checksum 0, and one that
has lost its checksum. -/
theorem altered_line_accepted :
    let altered : WALRecord := { numbered 1 with payload := (numbered 2).payload, crc32 := 0 }
    let zeroed := altered.text digitFloats
    let bare := print digitFloats (.obj altered.toDict.dropLast)
    let accepted := (altered.postInit digitFloats).general
    (ofFormat digitFloats).iterRecords (fun _ => 0) [zeroed, bare] = [(zeroed, accepted), (bare, accepted)] ∧
      ¬ (ofFormat digitFloats).Vouched zeroed accepted ∧ ¬ (ofFormat digitFloats).Vouched bare accepted := by
  refine ⟨by decide +kernel, fun h => ?_, fun h => ?_⟩
  · exact absurd h.crc32 (by decide +kernel)
  · exact absurd h.hasCrc32 (by decide +kernel)

end Decoder

end MeshWeaver
