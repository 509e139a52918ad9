import MeshWeaver.Wal.Record

/-!
# The task cache

`TaskCache.execute_with_cache` keeps the results of calls in the DHT, under a key made of the bytecode of the
function and its arguments. The bytecode refers to constants, names and captured variables by their
positions, so that different functions may share a key, and a result comes back as JSON has it. The cache is
transparent where neither happens.
-/

namespace MeshWeaver

open Lib
open Lib.Json (FloatFormat Proper ProperElements ProperMembers)

/-! ### Objects and their JSON -/

/-- A key of a Python dictionary; `other` is one that JSON has no text for. -/
inductive PyKey where
  | str (s : String)
  | int (z : Int)
  | float (q : Rat)
  | bool (b : Bool)
  | none
  | other (description : String)

/-- What a function may return; `other` is an object that JSON has no text for. -/
inductive PyObject where
  | none
  | bool (b : Bool)
  | int (z : Int)
  | float (q : Rat)
  | str (s : String)
  | list (xs : List PyObject)
  | tuple (xs : List PyObject)
  | dict (items : List (PyKey × PyObject))
  | other (description : String)

namespace PyObject

variable (fmt : FloatFormat Rat)

def keyText : PyKey → Option String
  | .str s => some s
  | .int z => some (.ofList (Json.intText z))
  | .float q => some (.ofList (fmt.repr q))
  | .bool b => some (if b then "true" else "false")
  | .none => some "null"
  | .other _ => .none

mutual

/-- The value that `json.dumps(v)` writes, unless it raises. -/
def toJson : PyObject → Option (Json Rat)
  | .none => some .null
  | .bool b => some (.bool b)
  | .int z => some (.int z)
  | .float q => some (.float q)
  | .str s => some (.str s)
  | .list xs => (toJsonList xs).map .arr
  | .tuple xs => (toJsonList xs).map .arr
  | .dict items => (toJsonItems items).map .obj
  | .other _ => Option.none

def toJsonList : List PyObject → Option (List (Json Rat))
  | [] => some []
  | v :: vs => match toJson v, toJsonList vs with
    | some j, some js => some (j :: js)
    | _, _ => Option.none

def toJsonItems : List (PyKey × PyObject) → Option (List (String × Json Rat))
  | [] => some []
  | (k, v) :: items => match keyText fmt k, toJson v, toJsonItems items with
    | some key, some j, some members => some ((key, j) :: members)
    | _, _, _ => Option.none

end

mutual

/-- What `json.loads` makes of a JSON value. -/
def ofJson : Json Rat → PyObject
  | .null => .none
  | .bool b => .bool b
  | .int z => .int z
  | .float q => .float q
  | .str s => .str s
  | .arr xs => .list (ofJsonList xs)
  | .obj items => .dict (ofJsonItems items)

def ofJsonList : List (Json Rat) → List PyObject
  | [] => []
  | j :: js => ofJson j :: ofJsonList js

def ofJsonItems : List (String × Json Rat) → List (PyKey × PyObject)
  | [] => []
  | (k, j) :: items => (.str k, ofJson j) :: ofJsonItems items

end

/-- What arrives of a value that is sent as JSON. -/
def roundTrip (v : PyObject) : Option PyObject :=
  (v.toJson fmt).bind fun j => (Json.loads fmt (Json.print fmt j)).map ofJson

mutual

/-- Made of what JSON has: no tuples, and strings for the keys of dictionaries. -/
def Plain : PyObject → Prop
  | .float q => fmt.Exact q
  | .list xs => PlainList xs
  | .tuple _ => False
  | .dict items => (items.filterMap fun item => keyText fmt item.1).Nodup ∧ PlainItems items
  | .other _ => False
  | _ => True

def PlainList : List PyObject → Prop
  | [] => True
  | v :: vs => v.Plain ∧ PlainList vs

def PlainItems : List (PyKey × PyObject) → Prop
  | [] => True
  | (k, v) :: items => (∃ s, k = .str s) ∧ v.Plain ∧ PlainItems items

end

mutual

theorem exists_json : ∀ v : PyObject, v.Plain fmt → ∃ j, v.toJson fmt = some j ∧ j.Proper fmt ∧ ofJson j = v
  | .none, _ => ⟨.null, rfl, trivial, rfl⟩
  | .bool b, _ => ⟨.bool b, rfl, trivial, rfl⟩
  | .int z, _ => ⟨.int z, rfl, trivial, rfl⟩
  | .float q, h => ⟨.float q, rfl, h, rfl⟩
  | .str s, _ => ⟨.str s, rfl, trivial, rfl⟩
  | .list xs, h => by
    obtain ⟨js, hjs, hproper, hback⟩ := exists_jsonList xs h
    exact ⟨.arr js, by rw [toJson, hjs]; rfl, hproper, by rw [ofJson, hback]⟩
  | .dict items, h => by
    obtain ⟨members, hmembers, hproper, hback, hkeys⟩ := exists_jsonItems items h.2
    exact ⟨.obj members, by rw [toJson, hmembers]; rfl, ⟨hkeys ▸ h.1, hproper⟩, by rw [ofJson, hback]⟩
  | .tuple _, h | .other _, h => h.elim

theorem exists_jsonList : ∀ vs : List PyObject, PlainList fmt vs → ∃ js, toJsonList fmt vs = some js ∧
    ProperElements fmt js ∧ ofJsonList js = vs
  | [], _ => ⟨[], rfl, trivial, rfl⟩
  | v :: vs, h => by
    obtain ⟨j, hj, hproper, hback⟩ := exists_json v h.1
    obtain ⟨js, hjs, hpropers, hbacks⟩ := exists_jsonList vs h.2
    exact ⟨j :: js, by rw [toJsonList, hj, hjs], ⟨hproper, hpropers⟩, by rw [ofJsonList, hback, hbacks]⟩

theorem exists_jsonItems : ∀ items : List (PyKey × PyObject), PlainItems fmt items → ∃ members,
    toJsonItems fmt items = some members ∧ ProperMembers fmt members ∧ ofJsonItems members = items ∧
      items.filterMap (fun item => keyText fmt item.1) = members.map Prod.fst
  | [], _ => ⟨[], rfl, trivial, rfl, rfl⟩
  | (k, v) :: items, h => by
    obtain ⟨⟨s, rfl⟩, hv, hitems⟩ := h
    obtain ⟨j, hj, hproper, hback⟩ := exists_json v hv
    obtain ⟨members, hmembers, hpropers, hbacks, hkeys⟩ := exists_jsonItems items hitems
    refine ⟨(s, j) :: members, by rw [toJsonItems, hj, hmembers]; rfl, ⟨hproper, hpropers⟩, ?_, ?_⟩
    · rw [ofJsonItems, hback, hbacks]
    · rw [List.filterMap_cons, List.map_cons, ← hkeys]
      rfl

end

theorem roundTrip_of_plain {v : PyObject} (h : v.Plain fmt) : v.roundTrip fmt = some v := by
  obtain ⟨j, hj, hproper, hback⟩ := exists_json fmt v h
  rw [roundTrip, hj, Option.bind_some, Json.loads_print fmt hproper, Option.map_some, hback]

theorem roundTrip_tuple {xs : List PyObject} (h : PlainList fmt xs) : (tuple xs).roundTrip fmt = some (list xs) :=
  roundTrip_of_plain fmt (show (list xs).Plain fmt from h)

end PyObject

/-! ### Functions and calls -/

/-- A code object: the instructions refer to constants and names by their positions. -/
structure CodeObject where
  coCode : List UInt8
  coConsts : List PyObject
  coNames : List String

/-- A callable with what it is made of; `captured` are the values of its free variables, of its defaults and
of the globals that it uses. -/
structure PyFunction where
  qualname : Option String
  name : Option String
  text : String
  code : Option CodeObject
  captured : List PyObject

abbrev Kwargs := List (String × PyObject)

/-- What the cache has from Python: how floats are written, SHA-256, `cloudpickle.dumps` of the arguments,
and what a function returns. -/
structure Runtime where
  floats : FloatFormat Rat
  sha256 : List UInt8 → String
  pickle : List PyObject → Kwargs → List UInt8
  call : PyFunction → List PyObject → Kwargs → Except PyError PyObject

/-- A call of `execute_with_cache`, with the times at which the DHT is asked and told. -/
structure TaskCall where
  func : PyFunction
  args : List PyObject
  kwargs : Kwargs
  executor : Option (PyFunction → List PyObject → Kwargs → Except PyError PyObject)
  ttl : Option Rat
  forceRefresh : Bool
  now : Rat
  storedAt : Rat

/-- The entries with the times at which they expire. -/
abbrev Dht := Dict String (PyObject × Rat)

structure TaskCache where
  dhtStorage : Option Dht
  defaultTtl : Rat

variable (rt : Runtime)

/-- `sorted(kwargs.items())`; no two items have the same name. -/
def sortedItems (kwargs : Kwargs) : Kwargs :=
  kwargs.insertionSort fun a b => Text.precedes a.1.toList b.1.toList

def PyFunction.codeBytes (func : PyFunction) : List UInt8 :=
  match func.code with
  | some code => code.coCode
  | none => (func.qualname.getD (func.name.getD func.text)).toUTF8.toList

namespace TaskCall

variable (c : TaskCall)

def hashed : List UInt8 := c.func.codeBytes ++ rt.pickle c.args (sortedItems c.kwargs)

def computeCacheKey : String := "dht:task_cache:" ++ rt.sha256 (c.hashed rt)

def direct : Except PyError PyObject := rt.call c.func c.args c.kwargs

def execute : Except PyError PyObject :=
  match c.executor with
  | some executor => executor c.func c.args c.kwargs
  | none => c.direct rt

end TaskCall

namespace Dht

/-- `find_value(key)`: an entry that has expired is dropped. -/
def findValue (dht : Dht) (key : String) (now : Rat) : Dht × Option PyObject :=
  match dht.get? key with
  | none => (dht, none)
  | some (value, expiry) => if expiry > now then (dht, some value) else (dht.erase key, none)

/-- `store(key, value, ttl)`: the value is sent as JSON, or not at all. -/
def store (fmt : FloatFormat Rat) (dht : Dht) (key : String) (value : PyObject) (ttl now : Rat) : Dht :=
  match value.roundTrip fmt with
  | none => dht
  | some received => if ttl > 0 then dht.insert key (received, now + ttl) else dht

end Dht

namespace TaskCache

variable (cache : TaskCache)

/-- `get(cache_key)`; a value that is `None` is as good as none. -/
def get (key : String) (now : Rat) : TaskCache × Option PyObject :=
  match cache.dhtStorage with
  | none => (cache, none)
  | some dht =>
    let found := dht.findValue key now
    ({ cache with dhtStorage := some found.1 },
      match found.2 with
      | some .none => none
      | value => value)

def put (key : String) (value : PyObject) (ttl : Option Rat) (now : Rat) : TaskCache :=
  { cache with
    dhtStorage := cache.dhtStorage.map fun dht =>
      dht.store rt.floats key value (ttl.getD cache.defaultTtl) now }

/-- The function is executed, and its result stored. -/
def executeAndPut (c : TaskCall) : TaskCache × Except PyError PyObject :=
  match c.execute rt with
  | .error error => (cache, .error error)
  | .ok result => (cache.put rt (c.computeCacheKey rt) result c.ttl c.storedAt, .ok result)

def executeWithCache (c : TaskCall) : TaskCache × Except PyError PyObject :=
  if c.forceRefresh then cache.executeAndPut rt c
  else
    let asked := cache.get (c.computeCacheKey rt) c.now
    match asked.2 with
    | some cached => (asked.1, .ok cached)
    | none => asked.1.executeAndPut rt c

def results (cache : TaskCache) (calls : List TaskCall) : List (Except PyError PyObject) :=
  emitted (fun cache c => (cache.executeWithCache rt c).1)
    (fun cache c => [(cache.executeWithCache rt c).2]) cache calls

/-! ### Transparency -/

/-- The assumptions on SHA-256 and cloudpickle, for the calls of a run. -/
structure NoCollisions (calls : List TaskCall) : Prop where
  digests : ∀ c ∈ calls, ∀ c' ∈ calls, rt.sha256 (c.hashed rt) = rt.sha256 (c'.hashed rt) →
    c.hashed rt = c'.hashed rt
  pickles : ∀ c ∈ calls, ∀ c' ∈ calls,
    rt.pickle c.args (sortedItems c.kwargs) = rt.pickle c'.args (sortedItems c'.kwargs) →
      c.args = c'.args ∧ sortedItems c.kwargs = sortedItems c'.kwargs

/-- Calls for which the same bytes are hashed are calls of functions that have the same bytecode and do the
same, no function depends on the order of its keyword arguments, results are plain or cannot be written, and
executors do what they are for. -/
structure Cacheable (calls : List TaskCall) : Prop where
  functions : ∀ c ∈ calls, ∀ c' ∈ calls, c.hashed rt = c'.hashed rt →
    c.func.codeBytes = c'.func.codeBytes ∧ rt.call c.func = rt.call c'.func
  unordered : ∀ c ∈ calls, ∀ kwargs, kwargs.Perm c.kwargs → rt.call c.func c.args kwargs = c.direct rt
  plain : ∀ c ∈ calls, ∀ result, c.direct rt = .ok result →
    result.Plain rt.floats ∨ result.toJson rt.floats = none
  executors : ∀ c ∈ calls, c.execute rt = c.direct rt

/-- What is stored are the results of calls. -/
def Faithful (calls : List TaskCall) : Prop :=
  ∀ dht ∈ cache.dhtStorage, ∀ key value expiry, dht.get? key = some (value, expiry) →
    ∃ c ∈ calls, c.computeCacheKey rt = key ∧ c.direct rt = .ok value

variable {rt cache} {calls : List TaskCall} {c : TaskCall}

theorem executeWithCache_hit (hask : c.forceRefresh = false) {cached : PyObject}
    (hcached : (cache.get (c.computeCacheKey rt) c.now).2 = some cached) :
    cache.executeWithCache rt c = ((cache.get (c.computeCacheKey rt) c.now).1, .ok cached) := by
  rw [executeWithCache, hask, if_neg Bool.false_ne_true]
  dsimp only
  rw [hcached]

theorem direct_eq (hcollisions : NoCollisions rt calls) (h : Cacheable rt calls) {c' : TaskCall}
    (hc : c ∈ calls) (hc' : c' ∈ calls) (hkey : c.computeCacheKey rt = c'.computeCacheKey rt) :
    c.direct rt = c'.direct rt := by
  have hhashed : c.hashed rt = c'.hashed rt := by
    refine hcollisions.digests c hc c' hc' (String.toList_inj.mp ?_)
    have htexts : ("dht:task_cache:" ++ rt.sha256 (c.hashed rt)).toList =
        ("dht:task_cache:" ++ rt.sha256 (c'.hashed rt)).toList := congrArg String.toList hkey
    rw [String.toList_append, String.toList_append] at htexts
    exact List.append_cancel_left htexts
  obtain ⟨hcode, hcall⟩ := h.functions c hc c' hc' hhashed
  have hpickle : rt.pickle c.args (sortedItems c.kwargs) = rt.pickle c'.args (sortedItems c'.kwargs) := by
    rw [TaskCall.hashed, hcode] at hhashed
    exact List.append_cancel_left hhashed
  obtain ⟨hargs, hkwargs⟩ := hcollisions.pickles c hc c' hc' hpickle
  have hperm : c.kwargs.Perm c'.kwargs :=
    ((List.perm_insertionSort _ c.kwargs).symm.trans (.of_eq hkwargs)).trans (List.perm_insertionSort _ _)
  rw [TaskCall.direct, hcall, hargs]
  exact h.unordered c' hc' c.kwargs hperm

theorem Faithful.get (h : cache.Faithful rt calls) (key : String) (now : Rat) :
    (cache.get key now).1.Faithful rt calls ∧ ∀ value, (cache.get key now).2 = some value →
      ∃ c ∈ calls, c.computeCacheKey rt = key ∧ c.direct rt = .ok value := by
  unfold TaskCache.get
  cases hdht : cache.dhtStorage with
  | none => exact ⟨h, nofun⟩
  | some dht =>
    dsimp only
    unfold Dht.findValue
    cases hget : dht.get? key with
    | none =>
      refine ⟨?_, nofun⟩
      rintro _ ⟨⟩
      exact h dht hdht
    | some entry =>
      obtain ⟨stored, expiry⟩ := entry
      dsimp only
      split_ifs
      · refine ⟨?_, fun value hvalue => ?_⟩
        · rintro _ ⟨⟩
          exact h dht hdht
        · have hstored : stored = value := by
            cases stored with
            | none => cases hvalue
            | _ => exact Option.some_inj.mp hvalue
          exact hstored ▸ h dht hdht key stored expiry hget
      · refine ⟨?_, nofun⟩
        rintro _ ⟨⟩ key' value expiry' hget'
        rw [Dict.get?_erase] at hget'
        split_ifs at hget'
        exact h dht hdht key' value expiry' hget'

theorem Faithful.put (h : cache.Faithful rt calls) (hc : c ∈ calls) {result : PyObject}
    (hresult : c.direct rt = .ok result)
    (hplain : result.Plain rt.floats ∨ result.toJson rt.floats = none) (ttl : Option Rat) (now : Rat) :
    (cache.put rt (c.computeCacheKey rt) result ttl now).Faithful rt calls := by
  intro dht' hdht'
  obtain ⟨dht, hdht, rfl⟩ := Option.map_eq_some_iff.mp hdht'
  intro key value expiry hget
  unfold Dht.store at hget
  rcases hplain with hplain | hunwritten
  · rw [PyObject.roundTrip_of_plain rt.floats hplain] at hget
    split_ifs at hget
    · rw [Dict.get?_insert] at hget
      split_ifs at hget with hkey
      · cases hget
        exact ⟨c, hc, hkey.symm, hresult⟩
      · exact h dht hdht key value expiry hget
    · exact h dht hdht key value expiry hget
  · rw [PyObject.roundTrip, hunwritten] at hget
    exact h dht hdht key value expiry hget

section
variable (hcacheable : Cacheable rt calls) (hc : c ∈ calls)
include hcacheable hc

theorem Faithful.executeAndPut (h : cache.Faithful rt calls) :
    (cache.executeAndPut rt c).1.Faithful rt calls ∧ (cache.executeAndPut rt c).2 = c.direct rt := by
  unfold TaskCache.executeAndPut
  rw [hcacheable.executors c hc]
  cases hresult : c.direct rt with
  | error error => exact ⟨h, rfl⟩
  | ok result => exact ⟨h.put hc hresult (hcacheable.plain c hc result hresult) _ _, rfl⟩

theorem Faithful.executeWithCache (hcollisions : NoCollisions rt calls) (h : cache.Faithful rt calls) :
    (cache.executeWithCache rt c).1.Faithful rt calls ∧ (cache.executeWithCache rt c).2 = c.direct rt := by
  by_cases hask : c.forceRefresh = true
  · rw [TaskCache.executeWithCache, if_pos hask]
    exact h.executeAndPut hcacheable hc
  · obtain ⟨hasked, hhit⟩ := h.get (c.computeCacheKey rt) c.now
    cases hcached : (cache.get (c.computeCacheKey rt) c.now).2 with
    | none =>
      rw [TaskCache.executeWithCache, if_neg hask]
      dsimp only
      rw [hcached]
      exact hasked.executeAndPut hcacheable hc
    | some cached =>
      -- the value was stored by a call with the same key
      obtain ⟨c', hc', hkey, hresult⟩ := hhit cached hcached
      rw [executeWithCache_hit (Bool.eq_false_iff.mpr hask) hcached]
      exact ⟨hasked, hresult.symm.trans (direct_eq hcollisions hcacheable hc' hc hkey)⟩

end

/-- **The cache is transparent** for calls that can be told apart and whose results JSON can carry. -/
theorem results_eq_direct (rt : Runtime) (calls : List TaskCall) (hcollisions : NoCollisions rt calls)
    (hcacheable : Cacheable rt calls) (dhtStorage : Option Dht) (hempty : ∀ dht ∈ dhtStorage, dht = .empty)
    (defaultTtl : Rat) :
    results rt ⟨dhtStorage, defaultTtl⟩ calls = calls.map (TaskCall.direct rt) := by
  have hrun : ∀ rest ⊆ calls, ∀ cache : TaskCache, cache.Faithful rt calls →
      results rt cache rest = rest.map (TaskCall.direct rt) := by
    intro rest
    induction rest with
    | nil => exact fun _ _ _ => rfl
    | cons c rest ih =>
      intro hsub cache hfaithful
      obtain ⟨hnext, hresult⟩ :=
        hfaithful.executeWithCache hcacheable (hsub List.mem_cons_self) hcollisions
      rw [results, Lib.emitted, hresult, List.map_cons]
      exact congrArg (c.direct rt :: ·) (ih (fun _ hmem => hsub (List.mem_cons_of_mem _ hmem)) _ hnext)
  refine hrun calls (fun _ hmem => hmem) _ ?_
  intro dht hdht key value expiry hget
  rw [hempty dht hdht] at hget
  cases hget

def constantFunction (value : PyObject) : PyFunction :=
  { qualname := some "<lambda>", name := some "<lambda>", text := "<function <lambda>>"
    code := some ⟨[151, 0, 100, 1, 83, 0], [.none, value], []⟩, captured := [] }

/-- The instructions `RESUME`, `LOAD_CONST` and `RETURN_VALUE`. -/
def returnConstant (func : PyFunction) (_ : List PyObject) (_ : Kwargs) : Except PyError PyObject :=
  match func.code with
  | some ⟨[151, 0, 100, i, 83, 0], consts, _⟩ => .ok (consts.getD i.toNat .none)
  | _ => .error (.runtimeError "another instruction")

/-- Python as far as calls of such functions without arguments need it. -/
def constantRuntime : Runtime where
  floats := digitFloats
  sha256 _ := "768ace08b1f0945920f5a2310f6a41607af6b253359289981e7a96d30978f07d"
  pickle _ _ := [128, 5, 149, 6, 0, 0, 0, 0, 0, 0, 0, 41, 93, 148, 134, 148, 46]
  call := returnConstant

def constantCall (value : PyObject) (now : Rat) : TaskCall :=
  { func := constantFunction value, args := [], kwargs := [], executor := none, ttl := none
    forceRefresh := false, now, storedAt := now }

theorem results_eq_direct_same_function :
    results constantRuntime ⟨some .empty, 300⟩ [constantCall (.str "a") 0, constantCall (.str "a") 1] =
      [.ok (.str "a"), .ok (.str "a")] := by
  refine results_eq_direct constantRuntime [constantCall (.str "a") 0, constantCall (.str "a") 1] ?_ ?_
    (some .empty) (fun dht hdht => (Option.some_inj.mp hdht).symm) 300
  · constructor
    all_goals simp [constantCall, TaskCall.hashed]
  · constructor
    · simp [constantCall]
    · simp [constantCall, TaskCall.direct, constantRuntime, returnConstant, constantFunction]
    · simp [constantCall, TaskCall.direct, constantRuntime, returnConstant, constantFunction, PyObject.Plain]
    · simp [constantCall, TaskCall.execute]

theorem results_constantCall {value received : PyObject} (h : value.roundTrip digitFloats = some received)
    (hsome : received ≠ .none) (value' : PyObject) :
    results constantRuntime ⟨some .empty, 300⟩ [constantCall value 0, constantCall value' 1] =
      [.ok value, .ok received] := by
  let key := (constantCall value 0).computeCacheKey constantRuntime
  let dht : Dht := Dict.empty.insert key (received, 0 + 300)
  have hput : ((⟨some .empty, 300⟩ : TaskCache).executeWithCache constantRuntime (constantCall value 0)).1 =
      ⟨some dht, 300⟩ := by
    change TaskCache.mk (some (Dht.store digitFloats Dict.empty key value 300 0)) 300 = _
    rw [Dht.store, h]
    exact congrArg (fun dht => TaskCache.mk (some dht) 300) (if_pos (by decide +kernel))
  have hfound : dht.findValue key 1 = (dht, some received) := by
    exact if_pos (by decide +kernel)
  have hget : ((⟨some dht, 300⟩ : TaskCache).executeWithCache constantRuntime (constantCall value' 1)).2 =
      .ok received := by
    have hasked : (⟨some dht, 300⟩ : TaskCache).get key 1 = (⟨some dht, 300⟩, some received) := by
      unfold TaskCache.get
      dsimp only
      rw [hfound]
      cases received with
      | none => exact absurd rfl hsome
      | _ => rfl
    exact congrArg Prod.snd (executeWithCache_hit (c := constantCall value' 1) rfl (congrArg Prod.snd hasked))
  rw [results, emitted, emitted, emitted, hput, hget]
  rfl

/-- A function gets the result of another one that has another constant, and a tuple comes back as a list. -/
theorem results_of_other_constant :
    results constantRuntime ⟨some .empty, 300⟩ [constantCall (.str "a") 0, constantCall (.str "b") 1] =
        [.ok (.str "a"), .ok (.str "a")] ∧
      (constantCall (.str "b") 1).direct constantRuntime = .ok (.str "b") ∧
      results constantRuntime ⟨some .empty, 300⟩
          [constantCall (.tuple [.int 1, .int 2]) 0, constantCall (.tuple [.int 1, .int 2]) 1] =
        [.ok (.tuple [.int 1, .int 2]), .ok (.list [.int 1, .int 2])] := by
  have htext : (PyObject.str "a").Plain digitFloats := trivial
  have hpair : PyObject.PlainList digitFloats [.int 1, .int 2] := ⟨trivial, trivial, trivial⟩
  refine ⟨?_, rfl, ?_⟩
  · exact results_constantCall (PyObject.roundTrip_of_plain digitFloats htext) PyObject.noConfusion (.str "b")
  · exact results_constantCall (PyObject.roundTrip_tuple digitFloats hpair) PyObject.noConfusion _

end TaskCache

end MeshWeaver
