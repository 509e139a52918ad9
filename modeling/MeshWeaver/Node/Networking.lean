import MeshWeaver.Node.Routing

/-!
# Stored values and task frames

A node drops a value that was stored on it when a `FIND_VALUE` finds it expired. To those who ask, it has the last
accepted `STORE` of each key (`handleFindValue_run`). A task travels as its length in four bytes and its bytes, and
nothing else is read from a stream (`readFrame_iff`).
-/

namespace MeshWeaver

open Lib

/-! ### The store of a node -/

/-- `local_store`: the value of a key and when it expires. -/
abbrev LocalStore := Dict String (Value × Rat)

/-- The payload of a request, and what else its handler reads. -/
inductive StoreRequest where
  | store (key value ttl : Value)
  | findValue (key : Value) (senderId : String) (table : RoutingTable)

inductive StoreReply where
  | stored (key : Value) (stored : Bool)
  | found (value : Value)
  | nodes (contacts : List NodeInfo)

/-- A `ttl` is a positive number; `True` is one. -/
def lifetime? : Value → Option Rat
  | .bool b => if b then some 1 else none
  | .int z => if 0 < z then some z else none
  | .float q => if 0 < q then some q else none
  | _ => none

/-- No float is as large as the number, and `time.time() + ttl` raises `OverflowError`. -/
def tooLarge : Value → Bool
  | .int z => 2 ^ 1024 - 2 ^ 970 ≤ z
  | _ => false

namespace LocalStore

variable (hash : String → NodeID) (nodeId : NodeID) (store : LocalStore)

/-- There is no answer where the expiry raises. -/
def handleStore (key value ttl : Value) (now : Rat) : LocalStore × Option StoreReply :=
  match key, lifetime? ttl with
  | .str k, some life =>
    if tooLarge ttl then (store, none) else (store.insert k (value, now + life), some (.stored key true))
  | _, _ => (store, some (.stored key false))

/-- A sender whose id cannot be read gets no answer. -/
def closest (table : RoutingTable) (senderId : String) (target : NodeID) : Option StoreReply :=
  (NodeID.ofString senderId).map fun sender => .nodes (table.findClosestNodes target (some table.k) (some sender))

/-- `hash` is `from_string_hash`. -/
def handleFindValue (key : Value) (senderId : String) (table : RoutingTable) (now : Rat) :
    LocalStore × Option StoreReply :=
  match key with
  | .str k =>
    match store.get? k with
    | some (value, expiry) =>
      if expiry > now then (store, some (.found value))
      else (store.erase k, closest table senderId (hash k))
    | none => (store, closest table senderId (hash k))
  | _ => (store, closest table senderId nodeId)

/-- The store after a request that is handled at a given time. -/
def step : StoreRequest × Rat → LocalStore
  | (.store key value ttl, now) => (store.handleStore key value ttl now).1
  | (.findValue key senderId table, now) => (store.handleFindValue hash nodeId key senderId table now).1

def accepted? (key : String) : StoreRequest × Rat → Option (Value × Rat)
  | (.store (.str k) value ttl, now) =>
    if k = key ∧ ¬ tooLarge ttl then (lifetime? ttl).map fun life => (value, now + life) else none
  | _ => none

def lastStore? (key : String) (requests : List (StoreRequest × Rat)) : Option (Value × Rat) :=
  requests.reverse.findSome? (accepted? key)

theorem filter_step (key : String) {r : StoreRequest × Rat} {now : Rat} (hle : r.2 ≤ now) :
    ((store.step hash nodeId r).get? key).filter (now < ·.2) =
      ((accepted? key r).or (store.get? key)).filter (now < ·.2) := by
  obtain ⟨⟨k, value, ttl⟩ | ⟨k, senderId, table⟩, time⟩ := r <;> cases k <;> try rfl
  case store.str k =>
    cases hlife : lifetime? ttl with
    | none => simp [step, handleStore, accepted?, hlife]
    | some life =>
      by_cases hlarge : tooLarge ttl = true
      · simp [step, handleStore, accepted?, hlife, hlarge]
      · simp only [step, handleStore, accepted?, hlife, hlarge]
        by_cases hk : k = key
        · simp [hk]
        · simp [hk, Dict.get?_insert_of_ne _ _ (Ne.symm hk)]
  case findValue.str k =>
    simp only [step, handleFindValue, accepted?, Option.none_or]
    cases hget : store.get? k with
    | none => rfl
    | some e =>
      dsimp only
      split_ifs with hlive
      · rfl
      · -- what is dropped had expired by then
        rw [Dict.get?_erase]
        split_ifs with hk
        · subst hk
          simp [hget, Option.filter, (not_lt.mp hlive).trans hle]
        · rfl

/-- **A node answers with the last accepted `STORE`**: a `FIND_VALUE` handled no earlier than the requests before it
finds the value of the last accepted `STORE` of its key if that has not expired, and else gets the closest contacts. -/
theorem handleFindValue_run (requests : List (StoreRequest × Rat)) (key senderId : String) (table : RoutingTable)
    (now : Rat) (hnow : ∀ r ∈ requests, r.2 ≤ now) :
    (handleFindValue hash nodeId (run (step hash nodeId) .empty requests) (.str key) senderId table now).2 =
      ((lastStore? key requests).filter (now < ·.2)).elim (closest table senderId (hash key))
        fun e => some (.found e.1) := by
  have hlive : ((run (step hash nodeId) .empty requests).get? key).filter (now < ·.2) =
      (lastStore? key requests).filter (now < ·.2) := by
    induction requests using List.reverseRecOn with
    | nil => rfl
    | append_singleton requests r ih =>
      rw [List.forall_mem_append, List.forall_mem_singleton] at hnow
      rw [run_append, run_cons, run_nil, filter_step hash nodeId _ key hnow.2, lastStore?, List.reverse_concat,
        List.findSome?_cons]
      cases accepted? key r with
      | none => exact ih hnow.1
      | some e => rfl
  rw [← hlive, handleFindValue]
  cases hget : (run (step hash nodeId) .empty requests).get? key with
  | none => rfl
  | some e => by_cases hlt : now < e.2 <;> simp [Option.filter, hlt]

/-- The second `STORE` is refused and the third one raises, so the first one is found. -/
theorem handleFindValue_run_live :
    (handleFindValue (fun _ => ⟨[]⟩) ⟨[]⟩ (run (step (fun _ => ⟨[]⟩) ⟨[]⟩) .empty
      [(.store (.str "k") (.int 1) (.int 5), 0), (.store (.str "k") (.int 2) (.int 0), 1),
        (.store (.str "k") (.int 3) (.int (10 ^ 400)), 2)])
      (.str "k") "" (.new ⟨[]⟩ 20) 3).2 = some (.found (.int 1)) := by
  have hfive : tooLarge (.int 5) = false := by decide +kernel
  have hlarge : tooLarge (.int (10 ^ 400)) = true := by decide +kernel
  refine (handleFindValue_run _ _ _ "k" "" _ 3 (by decide)).trans ?_
  norm_num [lastStore?, accepted?, lifetime?, hfive, hlarge, Option.filter]

end LocalStore

/-! ### Task frames -/

/-- `struct.pack(">I", n)`; `none` where it raises. -/
def packLength (n : Nat) : Option (List UInt8) :=
  if n < 2 ^ 32 then some [.ofNat (n / 2 ^ 24), .ofNat (n / 2 ^ 16), .ofNat (n / 2 ^ 8), .ofNat n] else none

/-- `struct.unpack(">I", header)` -/
def unpackLength (header : List UInt8) : Nat := header.foldl (fun n byte => n * 256 + byte.toNat) 0

/-- What `send_task` writes, and the server in answer. -/
def frame (payload : List UInt8) : Option (List UInt8) := (packLength payload.length).map (· ++ payload)

/-- `reader.readexactly(n)`, and what is left; `none` for `IncompleteReadError`. -/
def readExactly (n : Nat) (stream : List UInt8) : Option (List UInt8 × List UInt8) :=
  if n ≤ stream.length then some (stream.splitAt n) else none

/-- The reads of `_handle_client` and of `send_task`. -/
def readFrame (stream : List UInt8) : Option (List UInt8 × List UInt8) := do
  let (header, stream) ← readExactly 4 stream
  readExactly (unpackLength header) stream

theorem readExactly_iff {n : Nat} {stream part rest : List UInt8} :
    readExactly n stream = some (part, rest) ↔ stream = part ++ rest ∧ part.length = n := by
  rw [readExactly]
  constructor
  · intro h
    split_ifs at h with hn
    simp only [List.splitAt_eq, Option.some.injEq, Prod.mk.injEq] at h
    obtain ⟨rfl, rfl⟩ := h
    exact ⟨(List.take_append_drop n stream).symm, by simpa using hn⟩
  · rintro ⟨rfl, rfl⟩
    simp

theorem packLength_iff {n : Nat} {header : List UInt8} :
    packLength n = some header ↔ header.length = 4 ∧ unpackLength header = n := by
  rw [packLength]
  constructor
  · intro h
    split_ifs at h with hn
    cases h
    simp only [unpackLength, List.foldl_cons, List.foldl_nil, UInt8.toNat_ofNat']
    exact ⟨rfl, by omega⟩
  · rintro ⟨hlength, hn⟩
    obtain ⟨a, b, c, d, rfl⟩ := List.length_eq_four.mp hlength
    simp only [unpackLength, List.foldl_cons, List.foldl_nil] at hn
    have := a.toNat_lt
    have := b.toNat_lt
    have := c.toNat_lt
    have := d.toNat_lt
    rw [if_pos (by omega)]
    simp only [Option.some.injEq, List.cons.injEq, ← UInt8.toNat_inj, UInt8.toNat_ofNat', and_true]
    omega

/-- **A stream is read as the frame it begins with**, and not otherwise. -/
theorem readFrame_iff (stream payload rest : List UInt8) :
    readFrame stream = some (payload, rest) ↔ ∃ sent, frame payload = some sent ∧ stream = sent ++ rest := by
  simp only [readFrame, frame, Option.bind_eq_bind, Option.bind_eq_some_iff, Option.map_eq_some_iff, Prod.exists,
    readExactly_iff, packLength_iff]
  constructor
  · rintro ⟨header, _, ⟨rfl, hheader⟩, rfl, hlength⟩
    exact ⟨_, ⟨header, ⟨hheader, hlength.symm⟩, rfl⟩, by simp⟩
  · rintro ⟨_, ⟨header, ⟨hheader, hlength⟩, rfl⟩, rfl⟩
    exact ⟨header, payload ++ rest, ⟨by simp, hheader⟩, rfl, hlength.symm⟩

end MeshWeaver
