import Mathlib.Data.List.Sort
import Mathlib.Data.Nat.Digits.Defs
import MeshWeaver.Lib.Dict

/-!
# JSON texts

A JSON value, its text as `json.dumps` of Python writes it, and a reader that accepts JSON in general. `NaN` and
`Infinity`, which are not JSON, are neither written nor read. The reader takes the characters up to the next
delimiter for the word of a constant or a number. How floats are written is a parameter.
-/

namespace MeshWeaver.Lib

abbrev Text := List Char

/-- `a <= b` for strings: by code points. -/
def Text.precedes : Text → Text → Bool
  | [], _ => true
  | _ :: _, [] => false
  | a :: as, b :: bs => a.toNat < b.toNat || a.toNat = b.toNat && precedes as bs

namespace Text

theorem precedes_refl (a : Text) : precedes a a = true := by
  induction a with
  | nil => rfl
  | cons c cs ih => simp [precedes, ih]

theorem precedes_total (a b : Text) : precedes a b = true ∨ precedes b a = true := by
  induction a generalizing b with
  | nil => exact Or.inl rfl
  | cons c cs ih =>
    cases b with
    | nil => exact Or.inr rfl
    | cons d ds =>
      simp only [precedes, Bool.or_eq_true, Bool.and_eq_true, decide_eq_true_eq]
      rcases Nat.lt_trichotomy c.toNat d.toNat with hlt | heq | hgt
      · exact Or.inl (Or.inl hlt)
      · exact (ih ds).imp (fun h => Or.inr ⟨heq, h⟩) fun h => Or.inr ⟨heq.symm, h⟩
      · exact Or.inr (Or.inl hgt)

theorem precedes_trans {a b c : Text} (hab : precedes a b = true) (hbc : precedes b c = true) :
    precedes a c = true := by
  induction a generalizing b c with
  | nil => rfl
  | cons x xs ih =>
    cases b with
    | nil => cases hab
    | cons y ys =>
      cases c with
      | nil => cases hbc
      | cons z zs =>
        simp only [precedes, Bool.or_eq_true, Bool.and_eq_true, decide_eq_true_eq] at hab hbc ⊢
        rcases hab with hxy | ⟨hxy, hrest⟩
        · omega
        · rcases hbc with hyz | ⟨hyz, hrest'⟩
          · omega
          · exact Or.inr ⟨hxy.trans hyz, ih hrest hrest'⟩

theorem precedes_antisymm {a b : Text} (hab : precedes a b = true) (hba : precedes b a = true) : a = b := by
  induction a generalizing b with
  | nil =>
    cases b with
    | nil => rfl
    | cons d ds => cases hba
  | cons c cs ih =>
    cases b with
    | nil => cases hab
    | cons d ds =>
      simp only [precedes, Bool.or_eq_true, Bool.and_eq_true, decide_eq_true_eq] at hab hba
      obtain ⟨heq, hrest⟩ : c.toNat = d.toNat ∧ precedes cs ds = true := by
        rcases hab with hlt | h
        · omega
        · exact h
      have hchar : c = d := Char.toNat_inj.mp heq
      rw [hchar, ih hrest (hba.resolve_left (by omega)).2]

end Text

inductive Json (F : Type) where
  | null
  | bool (b : Bool)
  | int (z : Int)
  | float (x : F)
  | str (s : String)
  | arr (xs : List (Json F))
  | obj (items : List (String × Json F))

namespace Json

/-! ### Strings -/

def codeUnits (c : Char) : List Nat :=
  if c.toNat < 0x10000 then [c.toNat]
  else [0xd800 + (c.toNat - 0x10000) / 1024, 0xdc00 + (c.toNat - 0x10000) % 1024]

/-- `\uXXXX` -/
def escapeUnit (n : Nat) : Text :=
  ['\\', 'u', (n / 4096 % 16).digitChar, (n / 256 % 16).digitChar, (n / 16 % 16).digitChar,
    (n % 16).digitChar]

def escapeLetter? (c : Char) : Option Char :=
  if c = '"' then some '"'
  else if c = '\\' then some '\\'
  else if c = '\n' then some 'n'
  else if c = '\r' then some 'r'
  else if c = '\t' then some 't'
  else if c = '\x0c' then some 'f'
  else if c = '\x08' then some 'b'
  else none

def quoteChar (c : Char) : Text :=
  match escapeLetter? c with
  | some e => ['\\', e]
  | none =>
    if 0x20 ≤ c.toNat ∧ c.toNat ≤ 0x7e then [c] else (codeUnits c).flatMap escapeUnit

def quote (s : String) : Text := '"' :: (s.toList.flatMap quoteChar ++ ['"'])

/-- The code unit of a short escape. -/
def escaped? (c : Char) : Option Nat :=
  if c = '"' ∨ c = '\\' ∨ c = '/' then some c.toNat
  else if c = 'n' then some 0x0a
  else if c = 'r' then some 0x0d
  else if c = 't' then some 0x09
  else if c = 'f' then some 0x0c
  else if c = 'b' then some 0x08
  else none

def hexValue? (c : Char) : Option Nat :=
  if '0' ≤ c ∧ c ≤ '9' then some (c.toNat - 48)
  else if 'a' ≤ c ∧ c ≤ 'f' then some (c.toNat - 87)
  else if 'A' ≤ c ∧ c ≤ 'F' then some (c.toNat - 55)
  else none

def hexUnit? (a b c d : Char) : Option Nat :=
  match hexValue? a, hexValue? b, hexValue? c, hexValue? d with
  | some a, some b, some c, some d => some (((a * 16 + b) * 16 + c) * 16 + d)
  | _, _, _, _ => none

def readUnits : Text → Option (List Nat × Text)
  | [] => none
  | c :: rest =>
    if c = '"' then some ([], rest)
    else if c = '\\' then
      match rest with
      | 'u' :: h₁ :: h₂ :: h₃ :: h₄ :: rest =>
        match hexUnit? h₁ h₂ h₃ h₄ with
        | some n => (readUnits rest).map fun p => (n :: p.1, p.2)
        | none => none
      | e :: rest =>
        match escaped? e with
        | some n => (readUnits rest).map fun p => (n :: p.1, p.2)
        | none => none
      | [] => none
    else if c.toNat < 0x20 then none
    else (readUnits rest).map fun p => (c.toNat :: p.1, p.2)

/-- The character of a code unit; a surrogate without its partner is not one. -/
def unitChar (n : Nat) : Char := if n.isValidChar then Char.ofNat n else '�'

def isHigh (n : Nat) : Bool := 0xd800 ≤ n && n < 0xdc00

def isLow (n : Nat) : Bool := 0xdc00 ≤ n && n < 0xe000

/-- The characters of code units: surrogates are joined. -/
def joinUnits : List Nat → List Char
  | [] => []
  | [n] => [unitChar n]
  | hi :: lo :: rest =>
    if isHigh hi && isLow lo then
      Char.ofNat (0x10000 + (hi - 0xd800) * 1024 + (lo - 0xdc00)) :: joinUnits rest
    else unitChar hi :: joinUnits (lo :: rest)

def readString (text : Text) : Option (String × Text) :=
  (readUnits text).map fun p => (String.ofList (joinUnits p.1), p.2)

/-! ### Numbers -/

def intText : Int → Text
  | .ofNat n => Nat.toDigits 10 n
  | .negSucc n => '-' :: Nat.toDigits 10 (n + 1)

def unsigned : Text → Text
  | '-' :: text => text
  | text => text

def isWhole (text : Text) : Bool :=
  text = ['0'] || (text.head? ≠ some '0' && text ≠ [] && text.all Char.isDigit)

def isInt (text : Text) : Bool := isWhole (unsigned text)

def readInt : Text → Int
  | '-' :: text => -(Nat.ofDigitChars 10 text 0 : Int)
  | text => (Nat.ofDigitChars 10 text 0 : Int)

def isE (c : Char) : Bool := c = 'e' || c = 'E'

def isNumeric (c : Char) : Bool := c.isDigit || c = '-' || c = '+' || c = '.' || isE c

/-- One sign may precede the digits of an exponent. -/
def isExponent (text : Text) : Bool :=
  let digits := if text.head? = some '-' ∨ text.head? = some '+' then text.tail else text
  digits ≠ [] && digits.all Char.isDigit

def isFloat (text : Text) : Bool :=
  let mantissa := (unsigned text).takeWhile fun c => !isE c
  let exponent := (unsigned text).dropWhile fun c => !isE c
  let fraction := mantissa.dropWhile (· ≠ '.')
  text.all isNumeric && text.any (fun c => c = '.' || isE c) &&
    isWhole (mantissa.takeWhile (· ≠ '.')) &&
    (fraction = [] || fraction.tail ≠ [] && fraction.tail.all Char.isDigit) &&
    (exponent = [] || isExponent exponent.tail)

/-- How floats are written and read: those that are `Exact` are read back as they were. -/
structure FloatFormat (F : Type) where
  repr : F → Text
  read : Text → F
  Exact : F → Prop
  isFloat_repr : ∀ x, Exact x → isFloat (repr x) = true
  read_repr : ∀ x, Exact x → read (repr x) = x

/-! ### Writing -/

section
variable {F : Type} (fmt : FloatFormat F)

mutual

/-- `json.dumps(j)` -/
def print : Json F → Text
  | .null => "null".toList
  | .bool true => "true".toList
  | .bool false => "false".toList
  | .int z => intText z
  | .float x => fmt.repr x
  | .str s => quote s
  | .arr [] => ['[', ']']
  | .arr (x :: xs) => '[' :: (print x ++ printElements xs)
  | .obj [] => ['{', '}']
  | .obj ((k, v) :: items) => '{' :: (quote k ++ ':' :: ' ' :: (print v ++ printMembers items))

def printElements : List (Json F) → Text
  | [] => [']']
  | x :: xs => ',' :: ' ' :: (print x ++ printElements xs)

def printMembers : List (String × Json F) → Text
  | [] => ['}']
  | (k, v) :: items => ',' :: ' ' :: (quote k ++ ':' :: ' ' :: (print v ++ printMembers items))

end

end

section
variable {F : Type}

mutual

/-- The value that `json.dumps(j, sort_keys=True)` writes. -/
def sortKeys : Json F → Json F
  | .arr xs => .arr (sortElements xs)
  | .obj items => .obj ((sortMembers items).insertionSort fun a b => Text.precedes a.1.toList b.1.toList)
  | j => j

def sortElements : List (Json F) → List (Json F)
  | [] => []
  | x :: xs => sortKeys x :: sortElements xs

def sortMembers : List (String × Json F) → List (String × Json F)
  | [] => []
  | (k, v) :: items => (k, sortKeys v) :: sortMembers items

end

end

/-! ### Reading -/

section
variable {F : Type} (fmt : FloatFormat F)

def isBare (c : Char) : Bool :=
  !c.isWhitespace && c ∉ [',', ':', '[', ']', '{', '}', '"', '\\']

/-- The constant or the number that a word is. -/
def readWord (word : Text) : Option (Json F) :=
  if word = "null".toList then some .null
  else if word = "true".toList then some (.bool true)
  else if word = "false".toList then some (.bool false)
  else if isInt word then some (.int (readInt word))
  else if isFloat word then some (.float (fmt.read word))
  else none

def skipSpaces (text : Text) : Text := text.dropWhile Char.isWhitespace

/-- The items of a dictionary that is filled one by one. -/
def dictItems {β : Type} (items : List (String × β)) : List (String × β) :=
  items.foldl (fun d item => Dict.assign item.1 item.2 d) []

mutual

def readValue : Nat → Text → Option (Json F × Text)
  | 0, _ => none
  | n + 1, text =>
    match text with
    | '"' :: rest => (readString rest).map fun p => (.str p.1, p.2)
    | '[' :: rest =>
      match skipSpaces rest with
      | ']' :: rest => some (.arr [], rest)
      | rest =>
        match readValue n rest with
        | none => none
        | some (x, rest) => (readElements n rest).map fun p => (.arr (x :: p.1), p.2)
    | '{' :: rest =>
      match skipSpaces rest with
      | '}' :: rest => some (.obj [], rest)
      | rest =>
        match readMember n rest with
        | none => none
        | some (item, rest) =>
          (readMembers n rest).map fun p => (.obj (dictItems (item :: p.1)), p.2)
    | text => (readWord fmt (text.takeWhile isBare)).map fun j => (j, text.dropWhile isBare)

def readElements : Nat → Text → Option (List (Json F) × Text)
  | 0, _ => none
  | n + 1, text =>
    match skipSpaces text with
    | ']' :: rest => some ([], rest)
    | ',' :: rest =>
      match readValue n (skipSpaces rest) with
      | none => none
      | some (x, rest) => (readElements n rest).map fun p => (x :: p.1, p.2)
    | _ => none

def readMember : Nat → Text → Option ((String × Json F) × Text)
  | 0, _ => none
  | n + 1, text =>
    match text with
    | '"' :: rest =>
      match readString rest with
      | none => none
      | some (k, rest) =>
        match skipSpaces rest with
        | ':' :: rest => (readValue n (skipSpaces rest)).map fun p => ((k, p.1), p.2)
        | _ => none
    | _ => none

def readMembers : Nat → Text → Option (List (String × Json F) × Text)
  | 0, _ => none
  | n + 1, text =>
    match skipSpaces text with
    | '}' :: rest => some ([], rest)
    | ',' :: rest =>
      match readMember n (skipSpaces rest) with
      | none => none
      | some (item, rest) => (readMembers n rest).map fun p => (item :: p.1, p.2)
    | _ => none

end

def loads (text : Text) : Option (Json F) :=
  match readValue fmt (text.length + 1) (skipSpaces text) with
  | some (j, rest) => if skipSpaces rest = [] then some j else none
  | none => none

end

end Json

end MeshWeaver.Lib
