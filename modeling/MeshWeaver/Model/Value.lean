import Mathlib.Data.Rat.Defs
import Mathlib.Algebra.Order.Ring.Rat
import MeshWeaver.Lib.Dict

/-!
# Python values, log entries and the built-ins applied to them

`value` and `extra_data` of a `LogEntry` are `Any`; `Value` is their type. Floats are exact rationals (the non-finite
ones are left out); a dictionary is the list of its items, with string keys. A value can also be a `LogEntry` object,
since the `operations` of a batch may hold entries as well as dictionaries. `toInt`, `toFloat`, `pyEq`, `iter` are
`int()`, `float()`, `==` and iteration, with the exceptions they raise.
-/

namespace MeshWeaver

inductive PyError where
  | valueError (message : String)
  | typeError (message : String)
  | attributeError (message : String)
  | keyError (key : String)
  | runtimeError (message : String)
  | nameError (message : String)
  | overflowError (message : String)
  | recursionError
deriving DecidableEq, Repr

/-- `RaftCommandType`. `LogEntry.from_dict` keeps a `command_type` that is not a string as it is;
such a value equals no member of the enumeration and is `raw` here. -/
inductive RaftCommandType where
  | set | get | delete | cas | increment | lockAcquire | lockRelease | batch | noop
  | jobSubmit | jobAssign | jobComplete | jobFail | jobCancel | membershipChange
  | txPrepare | txCommit | txAbort | barrierRegister | barrierEnter
  | semaphoreAcquire | semaphoreRelease
  | raw
deriving DecidableEq, Repr

/-- `RaftCommandType(s)`: the member whose value is `s`. -/
def RaftCommandType.ofString? (s : String) : Option RaftCommandType :=
  match s with
  | "SET" => some .set
  | "GET" => some .get
  | "DELETE" => some .delete
  | "CAS" => some .cas
  | "INCREMENT" => some .increment
  | "LOCK_ACQUIRE" => some .lockAcquire
  | "LOCK_RELEASE" => some .lockRelease
  | "BATCH" => some .batch
  | "NOOP" => some .noop
  | "JOB_SUBMIT" => some .jobSubmit
  | "JOB_ASSIGN" => some .jobAssign
  | "JOB_COMPLETE" => some .jobComplete
  | "JOB_FAIL" => some .jobFail
  | "JOB_CANCEL" => some .jobCancel
  | "MEMBERSHIP_CHANGE" => some .membershipChange
  | "TX_PREPARE" => some .txPrepare
  | "TX_COMMIT" => some .txCommit
  | "TX_ABORT" => some .txAbort
  | "BARRIER_REGISTER" => some .barrierRegister
  | "BARRIER_ENTER" => some .barrierEnter
  | "SEMAPHORE_ACQUIRE" => some .semaphoreAcquire
  | "SEMAPHORE_RELEASE" => some .semaphoreRelease
  | _ => none

mutual

/-- A Python value carried by a command. -/
inductive Value where
  | none
  | bool (b : Bool)
  | int (z : Int)
  | float (q : Rat)
  | str (s : String)
  | list (xs : List Value)
  | dict (items : List (String × Value))
  | entry (e : LogEntry)

/-- `LogEntry`: a term-indexed entry of the replicated log. `extraData` is a dictionary when the
entry is built by `append_command`, and whatever the wire brought otherwise. -/
structure LogEntry where
  index : Int
  term : Int
  commandType : RaftCommandType
  key : Option String
  value : Value
  clientId : Option String
  timestamp : Rat
  fencingToken : Option Int
  extraData : Value

end

namespace Value

/-! ### Nesting depth -/

mutual

def depth : Value → Nat
  | .list xs => depthList xs + 1
  | .dict items => depthItems items + 1
  | .entry e => depthEntry e + 1
  | _ => 0

def depthEntry : LogEntry → Nat
  | ⟨_, _, _, _, _, _, _, _, extra⟩ => extra.depth

def depthList : List Value → Nat
  | [] => 0
  | v :: vs => max v.depth (depthList vs)

def depthItems : List (String × Value) → Nat
  | [] => 0
  | (_, v) :: rest => max v.depth (depthItems rest)

end

theorem depth_le_depthList {v : Value} {vs : List Value} (h : v ∈ vs) : v.depth ≤ depthList vs := by
  induction vs with
  | nil => simp at h
  | cons w vs ih =>
    rcases List.mem_cons.mp h with rfl | h
    · exact le_max_left _ _
    · exact le_trans (ih h) (le_max_right _ _)

theorem depth_lookup_le {k : String} {v : Value} {items : List (String × Value)}
    (h : Lib.Dict.lookup k items = some v) : v.depth ≤ depthItems items := by
  induction items with
  | nil => simp [Lib.Dict.lookup] at h
  | cons p rest ih =>
    obtain ⟨k', w⟩ := p
    by_cases hk : k' = k
    · simp only [Lib.Dict.lookup, if_pos hk, Option.some.injEq] at h
      rw [h]
      exact le_max_left _ _
    · simp only [Lib.Dict.lookup, if_neg hk] at h
      exact le_trans (ih h) (le_max_right _ _)

/-! ### Numbers -/

def dropSpaces (cs : List Char) : List Char := cs.dropWhile Char.isWhitespace

/-- `s.strip()`, as a list of characters -/
def strip (s : String) : List Char := (dropSpaces (dropSpaces s.toList).reverse).reverse

def digits : List Char → Bool → Nat → Option Nat
  | [], afterDigit, n => if afterDigit then some n else .none
  | c :: cs, afterDigit, n =>
    if c.isDigit then digits cs true (10 * n + (c.toNat - '0'.toNat))
    else if c = '_' ∧ afterDigit then digits cs false n
    else .none

def signed {β : Type} (parse : List Char → Option β) (neg : β → β) : List Char → Option β
  | '-' :: cs => (parse cs).map neg
  | '+' :: cs => parse cs
  | cs => parse cs

def parseInt (s : String) : Option Int :=
  signed (fun cs => (digits cs false 0).map Int.ofNat) Neg.neg (strip s)

def fraction (cs : List Char) : Option (Nat × Nat) :=
  if cs = [] then some (0, 0)
  else (digits cs false 0).map fun n => (n, (cs.filter Char.isDigit).length)

def parseDecimal (cs : List Char) : Option Rat :=
  let mantissa := cs.takeWhile fun c => c ≠ 'e' ∧ c ≠ 'E'
  let rest := cs.drop mantissa.length
  let whole := mantissa.takeWhile (· ≠ '.')
  let afterDot := mantissa.drop (whole.length + 1)
  let exponent : Option Int :=
    if rest = [] then some 0
    else signed (fun ds => (digits ds false 0).map Int.ofNat) Neg.neg (rest.drop 1)
  if whole = [] ∧ afterDot = [] then .none
  else do
    let (w, _) ← fraction whole
    let (f, k) ← fraction afterDot
    let e ← exponent
    pure (((w : Rat) + (f : Rat) / 10 ^ k) * (10 : Rat) ^ e)

def parseFloat (s : String) : Option Rat := signed parseDecimal Neg.neg (strip s)

/-- `int(v)`; in a text only ASCII digits and blanks are known. -/
def toInt : Value → Except PyError Int
  | .int z => .ok z
  | .bool b => .ok (if b then 1 else 0)
  | .float q => .ok (q.num.tdiv q.den)
  | .str s =>
    match parseInt s with
    | some z => .ok z
    | .none => .error (.valueError ("invalid literal for int() with base 10: '" ++ s ++ "'"))
  | _ => .error (.typeError "int() argument must be a string, a bytes-like object or a real number")

/-- `float(v)`; it does not raise `OverflowError` for an `int` that is too large, and refuses the texts of the
non-finite floats. -/
def toFloat : Value → Except PyError Rat
  | .int z => .ok z
  | .bool b => .ok (if b then 1 else 0)
  | .float q => .ok q
  | .str s =>
    match parseFloat s with
    | some q => .ok q
    | .none => .error (.valueError ("could not convert string to float: '" ++ s ++ "'"))
  | _ => .error (.typeError "float() argument must be a string or a real number")

/-! ### Comparison, lookup and iteration -/

/-- The number a value compares as, if it is one. -/
def num? : Value → Option Rat
  | .int z => some z
  | .bool b => some (if b then 1 else 0)
  | .float q => some q
  | _ => .none

mutual

/-- `a == b`: numbers compare by value across `bool`, `int` and `float`, dictionaries without regard
to the order of their items. -/
def pyEq : Value → Value → Bool
  | .list xs, .list ys => pyEqList xs ys
  | .dict xs, .dict ys => xs.length == ys.length && pyEqItems xs ys
  | .entry a, .entry b => pyEqEntry a b
  | .none, .none => true
  | .str a, .str b => a == b
  | a, b =>
    match a.num?, b.num? with
    | some x, some y => x == y
    | _, _ => false

def pyEqEntry : LogEntry → LogEntry → Bool
  | ⟨i, t, c, k, v, u, s, f, x⟩, ⟨i', t', c', k', v', u', s', f', x'⟩ =>
    i == i' && t == t' && c == c' && k == k' && pyEq v v' && u == u' && s == s' && f == f' &&
      pyEq x x'

def pyEqList : List Value → List Value → Bool
  | [], [] => true
  | a :: as, b :: bs => pyEq a b && pyEqList as bs
  | _, _ => false

def pyEqItems : List (String × Value) → List (String × Value) → Bool
  | [], _ => true
  | (k, v) :: rest, ys =>
    (match Lib.Dict.lookup k ys with
      | some w => pyEq v w
      | .none => false) && pyEqItems rest ys

end

mutual

/-- Whether two values are the same one, as data. -/
def same : Value → Value → Bool
  | .none, .none => true
  | .bool b, .bool b' => b = b'
  | .int z, .int z' => z = z'
  | .float q, .float q' => q = q'
  | .str s, .str s' => s = s'
  | .list xs, .list xs' => sameList xs xs'
  | .dict items, .dict items' => sameItems items items'
  | .entry e, .entry e' => sameEntry e e'
  | _, _ => false

def sameEntry : LogEntry → LogEntry → Bool
  | ⟨index, term, type, key, value, client, time, token, extra⟩,
    ⟨index', term', type', key', value', client', time', token', extra'⟩ =>
    decide (index = index' ∧ term = term' ∧ type = type' ∧ key = key' ∧ client = client' ∧
      time = time' ∧ token = token') && same value value' && same extra extra'

def sameList : List Value → List Value → Bool
  | [], [] => true
  | v :: vs, v' :: vs' => same v v' && sameList vs vs'
  | _, _ => false

def sameItems : List (String × Value) → List (String × Value) → Bool
  | [], [] => true
  | (k, v) :: rest, (k', v') :: rest' => decide (k = k') && same v v' && sameItems rest rest'
  | _, _ => false

end

mutual

theorem same_iff : ∀ v v' : Value, same v v' = true ↔ v = v'
  | .none, v' | .bool b, v' | .int z, v' | .float q, v' | .str s, v' => by cases v' <;> simp [same]
  | .list xs, v' => by cases v' <;> simp [same, sameList_iff xs]
  | .dict items, v' => by cases v' <;> simp [same, sameItems_iff items]
  | .entry e, v' => by cases v' <;> simp [same, sameEntry_iff e]

theorem sameEntry_iff : ∀ e e' : LogEntry, sameEntry e e' = true ↔ e = e'
  | ⟨_, _, _, _, value, _, _, _, extra⟩, ⟨_, _, _, _, _, _, _, _, _⟩ => by
    simp only [sameEntry, Bool.and_eq_true, decide_eq_true_eq, same_iff value, same_iff extra,
      LogEntry.mk.injEq]
    tauto

theorem sameList_iff : ∀ vs vs' : List Value, sameList vs vs' = true ↔ vs = vs'
  | [], vs' => by cases vs' <;> simp [sameList]
  | v :: vs, vs' => by cases vs' <;> simp [sameList, same_iff v, sameList_iff vs]

theorem sameItems_iff : ∀ items items' : List (String × Value),
    sameItems items items' = true ↔ items = items'
  | [], items' => by cases items' <;> simp [sameItems]
  | _ :: _, [] => by simp [sameItems]
  | (k, v) :: rest, (k', v') :: rest' => by
    simp [sameItems, same_iff v, sameItems_iff rest]

end

instance : DecidableEq Value := fun v v' => decidable_of_iff _ (same_iff v v')

instance : DecidableEq LogEntry := fun e e' => decidable_of_iff _ (sameEntry_iff e e')

mutual

/-- `json.dumps(v)` returns: there is no `LogEntry` object in the value. -/
def isJson : Value → Bool
  | .list xs => isJsonList xs
  | .dict items => isJsonItems items
  | .entry _ => false
  | _ => true

def isJsonList : List Value → Bool
  | [] => true
  | v :: vs => v.isJson && isJsonList vs

def isJsonItems : List (String × Value) → Bool
  | [] => true
  | (_, v) :: rest => v.isJson && isJsonItems rest

end

/-- `v.get(k)`, which only dictionaries have -/
def getKey (v : Value) (k : String) : Except PyError (Option Value) :=
  match v with
  | .dict items => .ok (Lib.Dict.lookup k items)
  | _ => .error (.attributeError "object has no attribute 'get'")

/-- `v.get(k, default)` -/
def getD (v : Value) (k : String) (default : Value) : Except PyError Value := do
  let found ← v.getKey k
  pure (found.getD default)

/-- The elements `for x in v` runs over. -/
def iter : Value → Except PyError (List Value)
  | .list xs => .ok xs
  | .dict items => .ok (items.map fun p => .str p.1)
  | .str s => .ok (s.toList.map fun c => .str (String.singleton c))
  | _ => .error (.typeError "object is not iterable")

/-- `bool(v)` -/
def truthy : Value → Bool
  | .none => false
  | .bool b => b
  | .int z => z ≠ 0
  | .float q => q ≠ 0
  | .str s => s ≠ ""
  | .list xs => xs ≠ []
  | .dict items => items ≠ []
  | .entry _ => true

/-- `z + v` for an integer `z` -/
def addTo (z : Int) : Value → Except PyError Value
  | .int d => .ok (.int (z + d))
  | .bool b => .ok (.int (z + if b then 1 else 0))
  | .float q => .ok (.float (z + q))
  | _ => .error (.typeError "unsupported operand type(s) for +")

/-- A value used where the annotation says `Optional[str]`. -/
def asStr? : Value → Except PyError (Option String)
  | .none => .ok .none
  | .str s => .ok (some s)
  | _ => .error (.typeError "expected a string or None")

/-- A value used where the annotation says `str`. -/
def asStr : Value → Except PyError String
  | .str s => .ok s
  | _ => .error (.typeError "expected a string")

def ofOptInt : Option Int → Value
  | some z => .int z
  | .none => .none

end Value

/-- `LogEntry.from_dict(data)`; `now` is what `time.time()` returns, the default of a missing
timestamp. -/
def LogEntry.fromDict (now : Rat) (data : List (String × Value)) : Except PyError LogEntry := do
  let field (k : String) : Option Value := Lib.Dict.lookup k data
  let required (k : String) : Except PyError Value :=
    match field k with
    | some v => .ok v
    | none => .error (.keyError k)
  let optional (k : String) : Value := (field k).getD .none
  let commandType : RaftCommandType :=
    match (field "command_type").getD (.str "NOOP") with
    | .str s => (RaftCommandType.ofString? s).getD .noop
    | _ => .raw
  let index ← (← required "index").toInt
  let term ← (← required "term").toInt
  let key ← (optional "key").asStr?
  let clientId ← (optional "client_id").asStr?
  let timestamp ← ((field "timestamp").getD (.float now)).toFloat
  let fencingToken ←
    match optional "fencing_token" with
    | .none => pure none
    | v => do pure (some (← v.toInt))
  pure { index, term, commandType, key, value := optional "value", clientId, timestamp,
         fencingToken, extraData := (field "extra_data").getD (.dict []) }

end MeshWeaver
