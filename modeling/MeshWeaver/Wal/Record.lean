import MeshWeaver.Lib.JsonLine
import MeshWeaver.Wal.Recovery

/-!
# Records as lines

`WALRecord` as it is written to a segment and read from it: a JSON object with a checksum over its fields. A record
has a dictionary for its payload and a checksum that is not negative; a line with others, which nothing writes, is
refused here.
-/

namespace MeshWeaver

open Lib
open Lib.Json (FloatFormat Proper ProperElements ProperMembers loads print)
open Lib.Files (strip isBreak IsLine)

/-! ### JSON values -/

namespace Value

mutual

/-- The JSON value; `isJson` excludes log entries, which have none. -/
def json : Value → Json Rat
  | .none => .null
  | .bool b => .bool b
  | .int z => .int z
  | .float q => .float q
  | .str s => .str s
  | .list xs => .arr (jsonList xs)
  | .dict items => .obj (jsonItems items)
  | .entry _ => .null

def jsonList : List Value → List (Json Rat)
  | [] => []
  | v :: vs => v.json :: jsonList vs

def jsonItems : List (String × Value) → List (String × Json Rat)
  | [] => []
  | (k, v) :: items => (k, v.json) :: jsonItems items

end

mutual

/-- What `json.loads` makes of a JSON value. -/
def ofJson : Json Rat → Value
  | .null => .none
  | .bool b => .bool b
  | .int z => .int z
  | .float q => .float q
  | .str s => .str s
  | .arr xs => .list (ofJsonList xs)
  | .obj items => .dict (ofJsonItems items)

def ofJsonList : List (Json Rat) → List Value
  | [] => []
  | j :: js => ofJson j :: ofJsonList js

def ofJsonItems : List (String × Json Rat) → List (String × Value)
  | [] => []
  | (k, j) :: items => (k, ofJson j) :: ofJsonItems items

end

mutual

theorem ofJson_json : ∀ v : Value, v.isJson = true → ofJson v.json = v
  | .none, _ | .bool _, _ | .int _, _ | .float _, _ | .str _, _ => rfl
  | .list xs, h => by rw [json, ofJson, ofJsonList_jsonList xs h]
  | .dict items, h => by rw [json, ofJson, ofJsonItems_jsonItems items h]

theorem ofJsonList_jsonList : ∀ vs : List Value, isJsonList vs = true → ofJsonList (jsonList vs) = vs
  | [], _ => rfl
  | v :: vs, h => by
    rw [isJsonList, Bool.and_eq_true] at h
    rw [jsonList, ofJsonList, ofJson_json v h.1, ofJsonList_jsonList vs h.2]

theorem ofJsonItems_jsonItems : ∀ items : List (String × Value), isJsonItems items = true →
    ofJsonItems (jsonItems items) = items
  | [], _ => rfl
  | (k, v) :: items, h => by
    rw [isJsonItems, Bool.and_eq_true] at h
    rw [jsonItems, ofJsonItems, ofJson_json v h.1, ofJsonItems_jsonItems items h.2]

end

end Value

/-- The format of the floats 0.0 to 9.0. -/
def digitFloats : FloatFormat Rat where
  repr q := [q.num.toNat.digitChar, '.', '0']
  read text := ((text.headD '0').toNat - 48 : Nat)
  Exact q := ∃ n < 10, q = (n : Nat)
  isFloat_repr := by
    rintro _ ⟨n, hn, rfl⟩
    have hfloat : ∀ n < 10, Json.isFloat [n.digitChar, '.', '0'] = true := by decide
    exact hfloat n hn
  read_repr := by
    rintro _ ⟨n, hn, rfl⟩
    have hdigit : ∀ n < 10, n.digitChar.toNat - 48 = n := by decide
    exact congrArg Nat.cast (hdigit n hn)

/-! ### Checksums -/

namespace Zlib

/-- One bit of the division by the reflected polynomial. -/
def crcBit (crc : Nat) : Nat := if crc % 2 = 1 then crc / 2 ^^^ 0xedb88320 else crc / 2

def crcByte (crc : Nat) (byte : UInt8) : Nat := crcBit^[8] (crc ^^^ byte.toNat)

/-- `zlib.crc32(raw)` -/
def crc32 (raw : List UInt8) : Nat := raw.foldl crcByte 0xffffffff ^^^ 0xffffffff

end Zlib

example : Zlib.crc32 ("123456789".toList.flatMap String.utf8EncodeChar) = 0xcbf43926 := by decide +kernel

/-- The nearest whole number, the even one if there are two. -/
def roundHalfEven (q : Rat) : Nat :=
  let n := q.num.natAbs
  let whole := n / q.den
  let twice := 2 * (n % q.den)
  if twice < q.den ∨ twice = q.den ∧ whole % 2 = 0 then whole else whole + 1

/-- `f"{q:.6f}"` -/
def fixedPoint (q : Rat) : Text :=
  let millionths := roundHalfEven (q * 1000000)
  (if q < 0 then ['-'] else []) ++ Nat.toDigits 10 (millionths / 1000000) ++
    '.' :: Files.padded 6 (millionths % 1000000)

/-! ### Records -/

namespace WALRecordType

/-- The value of the enumeration. -/
def value : WALRecordType → String
  | .entry => "ENTRY"
  | .snapshotPointer => "SNAPSHOT_POINTER"
  | .commitMarker => "COMMIT_MARKER"
  | .txMarker => "TX_MARKER"
  | .checkpoint => "CHECKPOINT"

/-- `WALRecordType(v)` -/
def ofValue : Value → Except PyError WALRecordType
  | .str s =>
    match [entry, snapshotPointer, commitMarker, txMarker, checkpoint].find? (·.value = s) with
    | some t => .ok t
    | none => .error (.valueError "not a valid WALRecordType")
  | _ => .error (.valueError "not a valid WALRecordType")

theorem ofValue_value (t : WALRecordType) : ofValue (.str t.value) = .ok t := by
  cases t
  all_goals rfl

end WALRecordType

namespace WALRecord

variable (fmt : FloatFormat Rat)

/-- What the checksum is computed of. -/
def raw (record : WALRecord) : Text :=
  Json.intText record.seqNo ++ ':' :: record.recordType.value.toList ++
    ':' :: fixedPoint record.timestamp ++
    ':' :: print fmt (Json.obj (Value.jsonItems record.payload)).sortKeys

def computeCrc32 (record : WALRecord) : Nat :=
  Zlib.crc32 ((record.raw fmt).flatMap String.utf8EncodeChar)

def verifyCrc32 (record : WALRecord) : Bool := record.crc32 = record.computeCrc32 fmt

def postInit (record : WALRecord) : WALRecord :=
  if record.crc32 = 0 then { record with crc32 := record.computeCrc32 fmt } else record

/-- `WALRecord(seq_no, record_type, payload, timestamp)`: the payload is written for the checksum. -/
def create (seqNo : Int) (recordType : WALRecordType) (payload : List (String × Value))
    (timestamp : Rat) : Except PyError WALRecord :=
  if Value.isJsonItems payload then
    .ok (postInit fmt { seqNo, recordType, payload, timestamp, crc32 := 0 })
  else .error (.typeError "Object is not JSON serializable")

/-- The items of `to_dict()`. -/
def toDict (record : WALRecord) : List (String × Json Rat) :=
  [("seq_no", .int record.seqNo), ("record_type", .str record.recordType.value),
    ("payload", .obj (Value.jsonItems record.payload)), ("timestamp", .float record.timestamp),
    ("crc32", .int record.crc32)]

/-- `to_json_line()` without its newline. -/
def text (record : WALRecord) : Text := print fmt (.obj record.toDict)

/-- `WALRecord.from_dict(data)`; `now` is what `time.time()` returns. -/
def fromDict (now : Rat) (data : List (String × Value)) : Except PyError WALRecord := do
  let field (k : String) : Option Value := Dict.lookup k data
  let required (k : String) : Except PyError Value :=
    match field k with
    | some v => .ok v
    | none => .error (.keyError k)
  let seqNo ← (← required "seq_no").toInt
  let recordType ← WALRecordType.ofValue (← required "record_type")
  let payload ←
    match ← required "payload" with
    | .dict payload => pure payload
    | _ => .error (.typeError "the payload is not a dictionary")
  let timestamp ← ((field "timestamp").getD (.float now)).toFloat
  match ← ((field "crc32").getD (.int 0)).toInt with
  | .ofNat crc32 => pure (postInit fmt { seqNo, recordType, payload, timestamp, crc32 })
  | .negSucc _ => .error (.valueError "the checksum is negative")

def fromJsonLine (now : Rat) (line : Text) : Except PyError WALRecord :=
  match loads fmt (strip line) with
  | some (.obj items) => fromDict fmt now (Value.ofJsonItems items)
  | some _ => .error (.typeError "indices must be integers")
  | none => .error (.valueError "the line is not JSON")

/-- The record on a line for a loop that ends at an exception, and at a wrong checksum if it looks. -/
def read (verifyCrc : Bool) (now : Rat) (line : Text) : Option WALRecord :=
  match fromJsonLine fmt now line with
  | .ok record => if verifyCrc && !record.verifyCrc32 fmt then none else some record
  | .error _ => none

/-! ### Reading what was written -/

/-- What a payload has to be for the log to keep it: JSON, with keys that are distinct in each
dictionary and floats that are written exactly. -/
structure Storable (payload : List (String × Value)) : Prop where
  isJson : Value.isJsonItems payload = true
  proper : (Json.obj (Value.jsonItems payload)).Proper fmt

/-- A record as `append` makes it. -/
structure Sealed (record : WALRecord) : Prop where
  payload : Storable fmt record.payload
  timestamp : fmt.Exact record.timestamp
  crc32 : record.crc32 = record.computeCrc32 fmt

variable {fmt} {record : WALRecord}

theorem create_eq_ok {payload : List (String × Value)} {timestamp : Rat} (hpayload : Storable fmt payload)
    (htimestamp : fmt.Exact timestamp) (seqNo : Int) (recordType : WALRecordType) :
    ∃ record, create fmt seqNo recordType payload timestamp = .ok record ∧ record.Sealed fmt ∧
      record.seqNo = seqNo := by
  rw [create, if_pos hpayload.isJson]
  exact ⟨_, rfl, ⟨hpayload, htimestamp, rfl⟩, rfl⟩

theorem Sealed.postInit (h : record.Sealed fmt) : record.postInit fmt = record := by
  unfold WALRecord.postInit
  rw [← h.crc32]
  exact ite_self _

theorem Sealed.verifyCrc32 (h : record.Sealed fmt) : record.verifyCrc32 fmt = true :=
  decide_eq_true h.crc32

theorem proper_toDict (hpayload : Storable fmt record.payload) (htimestamp : fmt.Exact record.timestamp) :
    (Json.obj record.toDict).Proper fmt :=
  ⟨by simp [toDict], trivial, trivial, hpayload.proper, htimestamp, trivial, trivial⟩

theorem Sealed.proper (h : record.Sealed fmt) : (Json.obj record.toDict).Proper fmt :=
  proper_toDict h.payload h.timestamp

theorem fromDict_toDict (hpayload : Value.isJsonItems record.payload = true) (now : Rat) :
    fromDict fmt now (Value.ofJsonItems record.toDict) = .ok (record.postInit fmt) := by
  have hpayload := Value.ofJsonItems_jsonItems record.payload hpayload
  have hdict : Value.ofJsonItems record.toDict =
      [("seq_no", .int record.seqNo), ("record_type", .str record.recordType.value),
        ("payload", .dict record.payload), ("timestamp", .float record.timestamp),
        ("crc32", .int record.crc32)] := by
    simp only [toDict, Value.ofJsonItems, Value.ofJson, hpayload]
  rw [hdict]
  unfold fromDict
  simp only [Dict.lookup, ↓reduceIte, String.reduceEq, Option.getD_some, Value.toInt, Value.toFloat,
    WALRecordType.ofValue_value, bind, Except.bind, pure, Except.pure]

theorem Sealed.fromDict (h : record.Sealed fmt) (now : Rat) :
    WALRecord.fromDict fmt now (Value.ofJsonItems record.toDict) = .ok record := by
  rw [fromDict_toDict h.payload.isJson, h.postInit]

theorem Sealed.isLine_text (h : record.Sealed fmt) : IsLine (record.text fmt) :=
  Json.isLine_print_object h.proper

/-- **A record is read from its line.** -/
theorem Sealed.read_text (h : record.Sealed fmt) (verifyCrc : Bool) (now : Rat) :
    read fmt verifyCrc now (record.text fmt) = some record := by
  have hloads : loads fmt (strip (record.text fmt)) = some (.obj record.toDict) := by
    rw [h.isLine_text.strip]
    exact Json.loads_print fmt h.proper
  unfold read
  rw [fromJsonLine, hloads]
  dsimp only
  rw [h.fromDict now]
  simp [h.verifyCrc32]

theorem read_eq_none {line : Text} (h : loads fmt (strip line) = none) (verifyCrc : Bool) (now : Rat) :
    read fmt verifyCrc now line = none := by
  unfold read
  rw [fromJsonLine, h]

section
variable {torn : Text} (hcut : torn <+: record.text fmt) (hne : torn ≠ [])
include hcut hne

/-- **A torn line is not read.** -/
theorem Sealed.read_torn (h : record.Sealed fmt) (htorn : torn ≠ record.text fmt) (verifyCrc : Bool)
    (now : Rat) : read fmt verifyCrc now (strip torn) = none := by
  -- the line is stripped by the loop, and again by `from_json_line`
  obtain ⟨hne₁, hcut₁⟩ := Json.strip_torn hcut hne
  have htorn₁ := Json.strip_torn_ne hcut hne htorn
  obtain ⟨hne₂, hcut₂⟩ := Json.strip_torn (hcut₁.trans hcut) hne₁
  have htorn₂ := Json.strip_torn_ne (hcut₁.trans hcut) hne₁ htorn₁
  exact read_eq_none (Json.loads_torn fmt h.proper ((hcut₂.trans hcut₁).trans hcut) hne₂ htorn₂)
    verifyCrc now

/-- **A record behind a torn one is not read**, nor is one behind a line that only lacks its newline. -/
theorem Sealed.read_torn_append (h : record.Sealed fmt) {next : WALRecord} (hnext : next.Sealed fmt)
    (verifyCrc : Bool) (now : Rat) : read fmt verifyCrc now (torn ++ next.text fmt) = none := by
  refine read_eq_none ?_ verifyCrc now
  rw [text, (Json.isLine_torn_append hcut hne h.proper hnext.proper).strip]
  exact Json.loads_torn_append fmt h.proper hnext.proper hcut hne

end

def numbered (seqNo : Int) : WALRecord :=
  postInit digitFloats ⟨seqNo, .entry, [("k", .int seqNo)], 1, 0⟩

theorem sealed_numbered (seqNo : Int) : (numbered seqNo).Sealed digitFloats := by
  rw [numbered, postInit, if_pos rfl]
  exact ⟨⟨rfl, by simp [Value.jsonItems], trivial, trivial⟩, ⟨1, by decide, rfl⟩, rfl⟩

end WALRecord

end MeshWeaver
