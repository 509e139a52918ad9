import MeshWeaver.Lib.SortKeys
import MeshWeaver.Wal.Record

/-!
# Keys of payloads

The checksum is computed of a text whose keys are sorted as they are; behind the line they are strings, and the
checksum is computed again with the strings sorted. The two texts are the same exactly when in every dictionary of the
payload the keys have the order of their strings, as integers from 0 to 9 have and 2 and 10 do not.
-/

namespace MeshWeaver

open Lib PyData
open Lib.Json (FloatFormat print)

/-! ### Values of JSON -/

namespace Value

mutual

theorem json_ofJson : ∀ j : Json Rat, (ofJson j).json = j
  | .null | .bool _ | .int _ | .float _ | .str _ => rfl
  | .arr xs => by rw [ofJson, json, jsonList_ofJsonList xs]
  | .obj items => by rw [ofJson, json, jsonItems_ofJsonItems items]

theorem jsonList_ofJsonList : ∀ js : List (Json Rat), jsonList (ofJsonList js) = js
  | [] => rfl
  | j :: js => by rw [ofJsonList, jsonList, json_ofJson j, jsonList_ofJsonList js]

theorem jsonItems_ofJsonItems : ∀ items : List (String × Json Rat), jsonItems (ofJsonItems items) = items
  | [] => rfl
  | (k, j) :: items => by rw [ofJsonItems, jsonItems, json_ofJson j, jsonItems_ofJsonItems items]

end

mutual

theorem isJson_ofJson : ∀ j : Json Rat, (ofJson j).isJson = true
  | .null | .bool _ | .int _ | .float _ | .str _ => rfl
  | .arr xs => isJsonList_ofJsonList xs
  | .obj items => isJsonItems_ofJsonItems items

theorem isJsonList_ofJsonList : ∀ js : List (Json Rat), isJsonList (ofJsonList js) = true
  | [] => rfl
  | j :: js => by rw [ofJsonList, isJsonList, isJson_ofJson j, isJsonList_ofJsonList js, Bool.and_self]

theorem isJsonItems_ofJsonItems : ∀ items : List (String × Json Rat), isJsonItems (ofJsonItems items) = true
  | [] => rfl
  | (k, j) :: items => by
    rw [ofJsonItems, isJsonItems, isJson_ofJson j, isJsonItems_ofJsonItems items, Bool.and_self]

end

end Value

/-! ### Records of any payload -/

/-- A `WALRecord` whose payload is any dictionary. -/
structure ObjectRecord where
  seqNo : Int
  recordType : WALRecordType
  payload : List (DataKey × PyData)
  timestamp : Rat
  crc32 : Nat

namespace ObjectRecord

variable (fmt : FloatFormat Rat)

/-- What the checksum is computed of. -/
def raw (record : ObjectRecord) : Text :=
  Json.intText record.seqNo ++ ':' :: record.recordType.value.toList ++
    ':' :: fixedPoint record.timestamp ++
    ':' :: print fmt ((PyData.dict record.payload).sortedJson fmt)

def computeCrc32 (record : ObjectRecord) : Nat :=
  Zlib.crc32 ((record.raw fmt).flatMap String.utf8EncodeChar)

/-- `WALRecord(seq_no, record_type, payload, timestamp)`; keys that cannot be compared are refused. -/
def create (seqNo : Int) (recordType : WALRecordType) (payload : List (DataKey × PyData)) (timestamp : Rat) :
    Except PyError ObjectRecord :=
  if (PyData.dict payload).All Sortable then
    let record : ObjectRecord := { seqNo, recordType, payload, timestamp, crc32 := 0 }
    .ok { record with crc32 := record.computeCrc32 fmt }
  else .error (.typeError "'<' not supported")

/-- The items of `to_dict()`. -/
def toDict (record : ObjectRecord) : List (String × Json Rat) :=
  [("seq_no", .int record.seqNo), ("record_type", .str record.recordType.value),
    ("payload", (PyData.dict record.payload).json fmt), ("timestamp", .float record.timestamp),
    ("crc32", .int record.crc32)]

def toJsonLine (record : ObjectRecord) : Text := print fmt (.obj (record.toDict fmt)) ++ ['\n']

/-- `WALRecord.from_json_line(record.to_json_line()).verify_crc32()` for the record that `append` builds. -/
def reverify (seqNo : Int) (recordType : WALRecordType) (payload : List (DataKey × PyData))
    (timestamp now : Rat) : Except PyError Bool := do
  let record ← create fmt seqNo recordType payload timestamp
  let reread ← WALRecord.fromJsonLine fmt now (record.toJsonLine fmt)
  pure (reread.verifyCrc32 fmt)

/-- The record with the payload that JSON makes of it. -/
def plain (record : ObjectRecord) : WALRecord :=
  { seqNo := record.seqNo, recordType := record.recordType,
    payload := Value.ofJsonItems (jsonItems fmt record.payload), timestamp := record.timestamp,
    crc32 := record.crc32 }

variable {fmt} {record : ObjectRecord}

theorem toJsonLine_eq : record.toJsonLine fmt = (record.plain fmt).text fmt ++ ['\n'] := by
  rw [toJsonLine, toDict, WALRecord.text, WALRecord.toDict, plain, Value.jsonItems_ofJsonItems, PyData.json]

theorem raw_plain : (record.plain fmt).raw fmt =
    Json.intText record.seqNo ++ ':' :: record.recordType.value.toList ++ ':' :: fixedPoint record.timestamp ++
      ':' :: print fmt ((PyData.dict record.payload).json fmt).sortKeys := by
  rw [WALRecord.raw, plain, Value.jsonItems_ofJsonItems, PyData.json]

section
variable (hpayload : (PyData.dict record.payload).All (Writable fmt))
include hpayload

theorem raw_plain_eq_iff :
    (record.plain fmt).raw fmt = record.raw fmt ↔ (PyData.dict record.payload).All (InOrder fmt) := by
  have hproper := proper_json _ hpayload
  rw [raw_plain, raw, List.append_cancel_left_eq, List.cons.injEq, ← sortKeys_json_iff _ hpayload]
  constructor
  · rintro ⟨-, hprint⟩
    exact Json.print_injective (Json.proper_sortKeys _ hproper) (proper_sortedJson _ hpayload)
      hprint
  · intro heq
    rw [heq]
    exact ⟨rfl, rfl⟩

theorem fromJsonLine_toJsonLine (htimestamp : fmt.Exact record.timestamp) (now : Rat) :
    WALRecord.fromJsonLine fmt now (record.toJsonLine fmt) = .ok ((record.plain fmt).postInit fmt) := by
  have hstorable : WALRecord.Storable fmt (record.plain fmt).payload := by
    refine ⟨Value.isJsonItems_ofJsonItems _, ?_⟩
    rw [plain, Value.jsonItems_ofJsonItems]
    exact proper_json _ hpayload
  have hproper := WALRecord.proper_toDict hstorable htimestamp
  rw [toJsonLine_eq, WALRecord.fromJsonLine, WALRecord.text,
    (Json.isLine_print_object hproper).strip_newline, Json.loads_print fmt hproper]
  exact WALRecord.fromDict_toDict hstorable.isJson now

end

theorem verifyCrc32_postInit (r : WALRecord) :
    (r.postInit fmt).verifyCrc32 fmt = true ↔ r.crc32 = 0 ∨ r.computeCrc32 fmt = r.crc32 := by
  unfold WALRecord.postInit
  split_ifs with hzero
  · exact iff_of_true (decide_eq_true rfl) (Or.inl hzero)
  · rw [WALRecord.verifyCrc32, decide_eq_true_eq]
    exact ⟨fun h => Or.inr h.symm, fun h => (h.resolve_left hzero).symm⟩

/-- **A record verifies behind its line** when in every dictionary of its payload the keys have the order of
their strings. Otherwise the checksums are computed of different texts, and the record verifies only if CRC-32
does not tell them apart or is 0, which `__post_init__` takes for a missing checksum. -/
theorem reverify_iff {payload : List (DataKey × PyData)} {timestamp : Rat}
    (hpayload : (PyData.dict payload).All (Writable fmt)) (htimestamp : fmt.Exact timestamp)
    (seqNo : Int) (recordType : WALRecordType) (now : Rat) :
    ∃ record verified, create fmt seqNo recordType payload timestamp = .ok record ∧
      reverify fmt seqNo recordType payload timestamp now = .ok verified ∧
      ((PyData.dict payload).All (InOrder fmt) → verified = true) ∧
      (¬ (PyData.dict payload).All (InOrder fmt) →
        (record.plain fmt).raw fmt ≠ record.raw fmt ∧
        (verified = true ↔
          record.crc32 = 0 ∨ (record.plain fmt).computeCrc32 fmt = record.computeCrc32 fmt)) := by
  have hsortable : (PyData.dict payload).All Sortable :=
    PyData.All.imp₂ (fun _ hx _ => hx.sortable) _ hpayload hpayload
  let draft : ObjectRecord := { seqNo, recordType, payload, timestamp, crc32 := 0 }
  let record : ObjectRecord := { draft with crc32 := draft.computeCrc32 fmt }
  have hcreate : create fmt seqNo recordType payload timestamp = .ok record := by rw [create, if_pos hsortable]
  have hreread : WALRecord.fromJsonLine fmt now (record.toJsonLine fmt) =
      .ok ((record.plain fmt).postInit fmt) := fromJsonLine_toJsonLine hpayload htimestamp now
  have hraw : (record.plain fmt).raw fmt = record.raw fmt ↔ _ := raw_plain_eq_iff hpayload
  refine ⟨record, ((record.plain fmt).postInit fmt).verifyCrc32 fmt, hcreate, ?_, fun horder => ?_,
    fun hdisorder => ⟨mt hraw.mp hdisorder, verifyCrc32_postInit _⟩⟩
  · rw [reverify, hcreate]
    change (WALRecord.fromJsonLine fmt now (record.toJsonLine fmt) >>= _) = _
    rw [hreread]
    rfl
  · refine (verifyCrc32_postInit _).mpr (Or.inr ?_)
    rw [WALRecord.computeCrc32, hraw.mpr horder]
    rfl

/-- Keys that are integers of one digit do no harm. -/
theorem reverify_digits :
    let payload : List (DataKey × PyData) := [(.str "value", .dict [(.int 2, .str "a"), (.int 1, .str "b")])]
    reverify digitFloats 1 .txMarker payload 1 0 = .ok true := by
  intro payload
  have hwritable (x : PyData) (hx : x.Distinct ∧ x.Sortable) (hfloat : ∀ q, x ≠ .float q)
      (hkeys : ∀ k ∈ x.keys, ∀ q, k ≠ .float q) : x.Writable digitFloats :=
    ⟨hx.1, hx.2, fun q hq => absurd hq (hfloat q), fun k hk q hq => absurd hq (hkeys k hk q)⟩
  have hpayload : (PyData.dict payload).All (Writable digitFloats) := by
    refine ⟨hwritable _ (by decide) nofun (by simp [PyData.keys, payload]), ⟨⟨?_, ?_, ?_, trivial⟩, trivial⟩⟩
    · exact hwritable _ (by decide) nofun (by simp [PyData.keys])
    · exact hwritable _ (by decide) nofun nofun
    · exact hwritable _ (by decide) nofun nofun
  have htimestamp : digitFloats.Exact 1 := ⟨1, by decide, rfl⟩
  obtain ⟨record, verified, -, hverify, htrue, -⟩ := reverify_iff hpayload htimestamp 1 .txMarker 0
  rw [hverify, htrue (by decide +kernel)]

/-- The keys 2 and 10 stand in this order before the line, and the strings `"10"` and `"2"` in that one
behind it. -/
theorem reverify_two_ten :
    let payload : List (DataKey × PyData) := [(.str "value", .dict [(.int 2, .str "a"), (.int 10, .str "b")])]
    (create digitFloats 1 .txMarker payload 1).isOk = true ∧
      (reverify digitFloats 1 .txMarker payload 1 0).toOption = some false := by
  decide +kernel

end ObjectRecord

end MeshWeaver
