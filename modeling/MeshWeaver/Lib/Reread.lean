import MeshWeaver.Lib.PyData

/-!
# Reading an object back

What `json.loads` makes of the text of an object: all keys are strings then, of keys with the same string the
last one is left, and a tuple is a list.
-/

namespace MeshWeaver.Lib

open Json (FloatFormat)

namespace Json

variable {fmt : FloatFormat Rat}

mutual

/-- What is read of the text of a value: of members with one name the last is left, at the place of the
first. -/
def collapse : Json Rat → Json Rat
  | .arr xs => .arr (collapseElements xs)
  | .obj items => .obj (dictItems (collapseMembers items))
  | j => j

def collapseElements : List (Json Rat) → List (Json Rat)
  | [] => []
  | x :: xs => x.collapse :: collapseElements xs

def collapseMembers : List (String × Json Rat) → List (String × Json Rat)
  | [] => []
  | (k, x) :: items => (k, x.collapse) :: collapseMembers items

end

def lineBreak (level : Nat) : Text := '\n' :: List.replicate (2 * level) ' '

section
variable (fmt)

mutual

/-- `json.dumps(j, indent=2)`, inside of some brackets -/
def printIndented : Nat → Json Rat → Text
  | level, .arr (x :: xs) =>
    '[' :: (lineBreak (level + 1) ++ printIndented (level + 1) x ++ indentedElements level xs)
  | level, .obj ((k, v) :: items) =>
    '{' :: (lineBreak (level + 1) ++ quote k ++ ':' :: ' ' :: printIndented (level + 1) v ++
      indentedMembers level items)
  | _, j => print fmt j

def indentedElements : Nat → List (Json Rat) → Text
  | level, [] => lineBreak level ++ [']']
  | level, x :: xs =>
    ',' :: (lineBreak (level + 1) ++ printIndented (level + 1) x ++ indentedElements level xs)

def indentedMembers : Nat → List (String × Json Rat) → Text
  | level, [] => lineBreak level ++ ['}']
  | level, (k, v) :: items =>
    ',' :: (lineBreak (level + 1) ++ quote k ++ ':' :: ' ' :: printIndented (level + 1) v ++
      indentedMembers level items)

end

end

end Json

namespace PyData

variable {fmt : FloatFormat Rat}

mutual

/-- The object that a value is read as. -/
def ofJson : Json Rat → PyData
  | .null => .none
  | .bool b => .bool b
  | .int z => .int z
  | .float q => .float q
  | .str s => .str s
  | .arr xs => .seq false (ofElements xs)
  | .obj items => .dict (ofMembers items)

def ofElements : List (Json Rat) → List PyData
  | [] => []
  | j :: js => ofJson j :: ofElements js

def ofMembers : List (String × Json Rat) → List (DataKey × PyData)
  | [] => []
  | (k, j) :: items => (.str k, ofJson j) :: ofMembers items

end

section
variable (fmt)

/-- `json.loads(json.dumps(x))` -/
def reread (x : PyData) : PyData := ofJson (x.json fmt).collapse

end

/-- All keys are strings, and the object is not a tuple. -/
def Plain (x : PyData) : Prop := (∀ k ∈ x.keys, k.kind = 2) ∧ ∀ xs, x ≠ .seq true xs

mutual

theorem plain_ofJson : ∀ j : Json Rat, (ofJson j).All Plain
  | .null | .bool _ | .int _ | .float _ | .str _ => ⟨nofun, nofun⟩
  | .arr xs => ⟨⟨nofun, nofun⟩, plain_ofElements xs⟩
  | .obj items => by
    refine ⟨⟨?_, nofun⟩, plain_ofMembers items⟩
    rw [keys]
    induction items with
    | nil => exact nofun
    | cons item items ih =>
      obtain ⟨k, j⟩ := item
      rw [ofMembers, List.map_cons, List.forall_mem_cons]
      exact ⟨rfl, ih⟩

theorem plain_ofElements : ∀ js : List (Json Rat), AllElements Plain (ofElements js)
  | [] => trivial
  | j :: js => ⟨plain_ofJson j, plain_ofElements js⟩

theorem plain_ofMembers : ∀ items : List (String × Json Rat), AllItems Plain (ofMembers items)
  | [] => trivial
  | (_, j) :: items => ⟨plain_ofJson j, plain_ofMembers items⟩

end

mutual

theorem json_ofJson : ∀ j : Json Rat, (ofJson j).json fmt = j
  | .null | .bool _ | .int _ | .float _ | .str _ => rfl
  | .arr xs => by rw [ofJson, json, jsonElements_ofElements xs]
  | .obj items => by rw [ofJson, json, jsonItems_ofMembers items]

theorem jsonElements_ofElements : ∀ js : List (Json Rat), jsonElements fmt (ofElements js) = js
  | [] => rfl
  | j :: js => by rw [ofElements, jsonElements, json_ofJson j, jsonElements_ofElements js]

theorem jsonItems_ofMembers : ∀ items : List (String × Json Rat), jsonItems fmt (ofMembers items) = items
  | [] => rfl
  | (k, j) :: items => by
    rw [ofMembers, jsonItems, json_ofJson j, jsonItems_ofMembers items, DataKey.text]

end

mutual

theorem ofJson_json : ∀ x : PyData, x.All Plain → ofJson (x.json fmt) = x
  | .none, _ | .bool _, _ | .int _, _ | .float _, _ | .str _, _ => rfl
  | .seq true xs, h => absurd rfl (h.1.2 xs)
  | .seq false xs, h => by rw [json, ofJson, ofElements_jsonElements xs h.2]
  | .dict items, h => by rw [json, ofJson, ofMembers_jsonItems items h.1.1 h.2]

theorem ofElements_jsonElements : ∀ xs : List PyData, AllElements Plain xs →
    ofElements (jsonElements fmt xs) = xs
  | [], _ => rfl
  | x :: xs, h => by rw [jsonElements, ofElements, ofJson_json x h.1, ofElements_jsonElements xs h.2]

theorem ofMembers_jsonItems : ∀ items : List (DataKey × PyData), (∀ k ∈ items.map Prod.fst, k.kind = 2) →
    AllItems Plain items → ofMembers (jsonItems fmt items) = items
  | [], _, _ => rfl
  | (k, x) :: items, hkeys, h => by
    rw [List.map_cons, List.forall_mem_cons] at hkeys
    rw [jsonItems, ofMembers, ofJson_json x h.1, ofMembers_jsonItems items hkeys.2 h.2,
      ← DataKey.eq_str hkeys.1]

end

mutual

theorem collapse_json : ∀ x : PyData, x.All (Unambiguous fmt) → (x.json fmt).collapse = x.json fmt
  | .none, _ | .bool _, _ | .int _, _ | .float _, _ | .str _, _ => rfl
  | .seq _ xs, h => by rw [json, Json.collapse, collapseElements_json xs h.2]
  | .dict items, h => by
    rw [json, Json.collapse, collapseMembers_json items h.2,
      Json.dictItems_of_nodup (unambiguous_dict_iff.mp h.1)]

theorem collapseElements_json : ∀ xs : List PyData, AllElements (Unambiguous fmt) xs →
    Json.collapseElements (jsonElements fmt xs) = jsonElements fmt xs
  | [], _ => rfl
  | x :: xs, h => by rw [jsonElements, Json.collapseElements, collapse_json x h.1, collapseElements_json xs h.2]

theorem collapseMembers_json : ∀ items : List (DataKey × PyData), AllItems (Unambiguous fmt) items →
    Json.collapseMembers (jsonItems fmt items) = jsonItems fmt items
  | [], _ => rfl
  | (k, x) :: items, h => by
    rw [jsonItems, Json.collapseMembers, collapse_json x h.1, collapseMembers_json items h.2]

end

theorem unambiguous_of_plain {x : PyData} (hplain : x.Plain) (hdistinct : x.Distinct) : x.Unambiguous fmt := by
  refine hdistinct.nodup_keys.map_on fun a ha b hb heq => ?_
  rw [DataKey.eq_str (hplain.1 a ha), heq, ← DataKey.eq_str (hplain.1 b hb)]

theorem All.unambiguous {x : PyData} (hplain : x.All Plain) (hdistinct : x.All Distinct) : x.All (Unambiguous fmt) :=
  All.imp₂ (fun _ => unambiguous_of_plain) x hplain hdistinct

/-- **An object is read back as it was** exactly when all of its keys are strings and there is no tuple in
it. -/
theorem reread_eq_self_iff {x : PyData} (hdistinct : x.All Distinct) : x.reread fmt = x ↔ x.All Plain := by
  constructor
  · intro h
    rw [← h, reread]
    exact plain_ofJson _
  · intro hplain
    rw [reread, collapse_json x (hplain.unambiguous hdistinct), ofJson_json x hplain]

end PyData

end MeshWeaver.Lib
