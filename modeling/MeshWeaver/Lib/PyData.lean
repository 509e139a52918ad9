import Mathlib.Data.Rat.Defs
import MeshWeaver.Lib.JsonRoundTrip

/-!
# Python objects in JSON

`json.dumps` accepts dictionaries whose keys are strings, numbers, booleans or `None`, writes all of them as
strings, and writes a tuple like a list. Floats are rational numbers; which of them a float format writes
exactly is up to the format.
-/

namespace MeshWeaver.Lib

open Json (FloatFormat)

/-! ### Keys -/

inductive DataKey where
  | none
  | bool (b : Bool)
  | int (z : Int)
  | float (q : Rat)
  | str (s : String)
deriving DecidableEq

namespace DataKey

/-- The number that a key is: `True` is 1 and `False` is 0. -/
def number? : DataKey → Option Rat
  | .bool b => some (if b then 1 else 0)
  | .int z => some z
  | .float q => some q
  | _ => Option.none

/-- `a == b`: numbers by their value -/
def same (a b : DataKey) : Bool := a = b || a.number?.isSome && a.number? = b.number?

theorem same_comm (a b : DataKey) : a.same b = b.same a := by
  have hback : ∀ a b : DataKey, a.same b = true → b.same a = true := by
    intro a b h
    simp only [same, Bool.or_eq_true, Bool.and_eq_true, decide_eq_true_eq] at h ⊢
    exact h.imp Eq.symm fun ⟨hsome, heq⟩ => ⟨heq ▸ hsome, heq.symm⟩
  exact Bool.eq_iff_iff.mpr ⟨hback a b, hback b a⟩

/-- Keys can be compared if they are of the same kind. -/
def kind : DataKey → Nat
  | .none => 0
  | .str _ => 2
  | _ => 1

/-- The string that `json.dumps` writes for a key. -/
def text (fmt : FloatFormat Rat) : DataKey → String
  | .none => "null"
  | .bool b => if b then "true" else "false"
  | .int z => String.ofList (Json.intText z)
  | .float q => String.ofList (fmt.repr q)
  | .str s => s

def leaf : DataKey → Json Rat
  | .none => .null
  | .bool b => .bool b
  | .int z => .int z
  | .float q => .float q
  | .str s => .str s

theorem leaf_injective : Function.Injective leaf := by
  intro a b h
  cases a <;> cases b <;> cases h <;> rfl

theorem readWord_text (fmt : FloatFormat Rat) {k : DataKey} (hkind : k.kind ≠ 2)
    (hexact : ∀ q, k = .float q → fmt.Exact q) : Json.readWord fmt (k.text fmt).toList = some k.leaf := by
  cases k with
  | none => simp [text, leaf, Json.readWord]
  | bool b => cases b <;> simp [text, leaf, Json.readWord]
  | int z => rw [text, String.toList_ofList, Json.readWord_int, leaf]
  | float q =>
    have hq := hexact q rfl
    rw [text, String.toList_ofList, Json.readWord_float fmt (fmt.isFloat_repr q hq), fmt.read_repr q hq, leaf]
  | str s => exact absurd rfl hkind

theorem eq_str {fmt : FloatFormat Rat} {k : DataKey} (h : k.kind = 2) : k = .str (k.text fmt) := by
  cases k with
  | str s => rfl
  | _ => cases h

theorem eq_of_text_eq {fmt : FloatFormat Rat} {a b : DataKey} (hkind : a.kind = b.kind)
    (ha : ∀ q, a = .float q → fmt.Exact q) (hb : ∀ q, b = .float q → fmt.Exact q)
    (h : a.text fmt = b.text fmt) : a = b := by
  by_cases hstr : a.kind = 2
  · have ha : a = .str (a.text fmt) := eq_str hstr
    have hb : b = .str (b.text fmt) := eq_str (hkind ▸ hstr)
    rw [ha, h, ← hb]
  · have hread := readWord_text fmt hstr ha
    rw [h, readWord_text fmt (hkind ▸ hstr) hb] at hread
    exact (leaf_injective (Option.some_inj.mp hread)).symm

end DataKey

/-! ### Objects -/

/-- What `json.dumps` accepts: constants, numbers, strings, lists, tuples (`frozen`) and dictionaries. -/
inductive PyData where
  | none
  | bool (b : Bool)
  | int (z : Int)
  | float (q : Rat)
  | str (s : String)
  | seq (frozen : Bool) (xs : List PyData)
  | dict (items : List (DataKey × PyData))

namespace PyData

def keys : PyData → List DataKey
  | .dict items => items.map Prod.fst
  | _ => []

section
variable (P : PyData → Prop)

mutual

def All : PyData → Prop
  | .seq frozen xs => P (.seq frozen xs) ∧ AllElements xs
  | .dict items => P (.dict items) ∧ AllItems items
  | x => P x

def AllElements : List PyData → Prop
  | [] => True
  | x :: xs => x.All ∧ AllElements xs

def AllItems : List (DataKey × PyData) → Prop
  | [] => True
  | (_, x) :: items => x.All ∧ AllItems items

end

section
variable {P} {Q R : PyData → Prop}

mutual

theorem All.imp₂ (h : ∀ x, P x → Q x → R x) : ∀ x : PyData, x.All P → x.All Q → x.All R
  | .none, hx, hx' | .bool _, hx, hx' | .int _, hx, hx' | .float _, hx, hx' | .str _, hx, hx' => h _ hx hx'
  | .seq _ xs, hx, hx' => ⟨h _ hx.1 hx'.1, AllElements.imp₂ h xs hx.2 hx'.2⟩
  | .dict items, hx, hx' => ⟨h _ hx.1 hx'.1, AllItems.imp₂ h items hx.2 hx'.2⟩

theorem AllElements.imp₂ (h : ∀ x, P x → Q x → R x) : ∀ xs : List PyData,
    AllElements P xs → AllElements Q xs → AllElements R xs
  | [], _, _ => trivial
  | x :: xs, hx, hx' => ⟨All.imp₂ h x hx.1 hx'.1, AllElements.imp₂ h xs hx.2 hx'.2⟩

theorem AllItems.imp₂ (h : ∀ x, P x → Q x → R x) : ∀ items : List (DataKey × PyData),
    AllItems P items → AllItems Q items → AllItems R items
  | [], _, _ => trivial
  | (_, x) :: items, hx, hx' => ⟨All.imp₂ h x hx.1 hx'.1, AllItems.imp₂ h items hx.2 hx'.2⟩

end

end

variable [DecidablePred P]

mutual

instance decidableAll : ∀ x, Decidable (All P x)
  | .seq frozen xs =>
    have := decidableAllElements xs
    inferInstanceAs (Decidable (P (.seq frozen xs) ∧ AllElements P xs))
  | .dict items =>
    have := decidableAllItems items
    inferInstanceAs (Decidable (P (.dict items) ∧ AllItems P items))
  | .none | .bool _ | .int _ | .float _ | .str _ => inferInstanceAs (Decidable (P _))

def decidableAllElements : ∀ xs, Decidable (AllElements P xs)
  | [] => .isTrue trivial
  | x :: xs =>
    have := decidableAll x
    have := decidableAllElements xs
    inferInstanceAs (Decidable (x.All P ∧ AllElements P xs))

def decidableAllItems : ∀ items, Decidable (AllItems P items)
  | [] => .isTrue trivial
  | (_, x) :: items =>
    have := decidableAll x
    have := decidableAllItems items
    inferInstanceAs (Decidable (x.All P ∧ AllItems P items))

end

end

/-- No two keys are equal: every dictionary is like this. -/
def Distinct (x : PyData) : Prop := x.keys.Pairwise fun a b => a.same b = false
deriving Decidable

section
variable (fmt : FloatFormat Rat)

mutual

/-- The value that `json.dumps(x)` writes. -/
def json : PyData → Json Rat
  | .none => .null
  | .bool b => .bool b
  | .int z => .int z
  | .float q => .float q
  | .str s => .str s
  | .seq _ xs => .arr (jsonElements xs)
  | .dict items => .obj (jsonItems items)

def jsonElements : List PyData → List (Json Rat)
  | [] => []
  | x :: xs => x.json :: jsonElements xs

def jsonItems : List (DataKey × PyData) → List (String × Json Rat)
  | [] => []
  | (k, x) :: items => (k.text fmt, x.json) :: jsonItems items

end

end

variable {fmt : FloatFormat Rat}

theorem map_fst_jsonItems (items : List (DataKey × PyData)) :
    (jsonItems fmt items).map Prod.fst = items.map fun item => item.1.text fmt := by
  induction items with
  | nil => rfl
  | cons item items ih =>
    rw [jsonItems, List.map_cons, List.map_cons, ih]

/-- The keys are written differently. -/
def Unambiguous (fmt : FloatFormat Rat) (x : PyData) : Prop := (x.keys.map fun k => k.text fmt).Nodup

theorem unambiguous_dict_iff {items : List (DataKey × PyData)} :
    (PyData.dict items).Unambiguous fmt ↔ ((jsonItems fmt items).map Prod.fst).Nodup := by
  rw [map_fst_jsonItems, Unambiguous, keys, List.map_map]
  rfl

theorem Distinct.nodup_keys {x : PyData} (h : x.Distinct) : x.keys.Nodup := h.imp fun {a b} hab heq => by
  subst heq
  simp [DataKey.same] at hab

end PyData

end MeshWeaver.Lib
