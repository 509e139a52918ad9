import MeshWeaver.Lib.Json

/-!
# What is written is read back

The text of a value is read as that value, and the reader stops at its end, whatever delimiter follows.
The strings are read by code units, so that the escapes of a character outside the basic plane are two
units that are joined afterwards.
-/

namespace MeshWeaver.Lib.Json

/-! ### Strings -/

variable {c : Char} {n : Nat}

theorem readUnits_cons (hquote : c ≠ '"') (hslash : c ≠ '\\') (hcontrol : ¬ c.toNat < 0x20)
    (rest : Text) : readUnits (c :: rest) = (readUnits rest).map fun p => (c.toNat :: p.1, p.2) := by
  rw [readUnits.eq_def]
  dsimp only
  rw [if_neg hquote, if_neg hslash, if_neg hcontrol]

theorem hexValue?_digitChar : ∀ n < 16, hexValue? n.digitChar = some n := by decide

theorem hexUnit?_digits (h : n < 0x10000) :
    hexUnit? (n / 4096 % 16).digitChar (n / 256 % 16).digitChar (n / 16 % 16).digitChar
      (n % 16).digitChar = some n := by
  unfold hexUnit?
  rw [hexValue?_digitChar _ (Nat.mod_lt _ (by decide)), hexValue?_digitChar _ (Nat.mod_lt _ (by decide)),
    hexValue?_digitChar _ (Nat.mod_lt _ (by decide)), hexValue?_digitChar _ (Nat.mod_lt _ (by decide))]
  rw [Option.some.injEq]
  omega

theorem readUnits_escapeUnit (h : n < 0x10000) (rest : Text) :
    readUnits (escapeUnit n ++ rest) = (readUnits rest).map fun p => (n :: p.1, p.2) := by
  simp only [escapeUnit, List.cons_append, List.nil_append]
  rw [readUnits, if_neg (by decide), if_pos rfl, hexUnit?_digits h]

theorem toNat_valid (c : Char) : c.toNat < 0xd800 ∨ 0xdfff < c.toNat ∧ c.toNat < 0x110000 := c.valid

theorem codeUnits_lt (c : Char) : ∀ n ∈ codeUnits c, n < 0x10000 := by
  have hc := toNat_valid c
  unfold codeUnits
  split_ifs with h
  · simpa using h
  · simp only [List.mem_cons, List.not_mem_nil, or_false, forall_eq_or_imp, forall_eq]
    omega

theorem readUnits_escapeUnits {units : List Nat} (h : ∀ n ∈ units, n < 0x10000) (rest : Text) :
    readUnits (units.flatMap escapeUnit ++ rest) = (readUnits rest).map fun p => (units ++ p.1, p.2) := by
  induction units with
  | nil => simp
  | cons n units ih =>
    rw [List.flatMap_cons, List.append_assoc, readUnits_escapeUnit (h n List.mem_cons_self),
      ih fun m hm => h m (List.mem_cons_of_mem _ hm), Option.map_map]
    rfl

theorem readUnits_escapeLetter {c e : Char} (h : escapeLetter? c = some e) (rest : Text) :
    readUnits ('\\' :: e :: rest) = (readUnits rest).map fun p => (codeUnits c ++ p.1, p.2) := by
  unfold escapeLetter? at h
  split_ifs at h with h₁ h₂ h₃ h₄ h₅ h₆ h₇
  all_goals
    cases h
    subst c
    rfl

theorem readUnits_quoteChar (c : Char) (rest : Text) :
    readUnits (quoteChar c ++ rest) = (readUnits rest).map fun p => (codeUnits c ++ p.1, p.2) := by
  unfold quoteChar
  cases hletter : escapeLetter? c with
  | some e => exact readUnits_escapeLetter hletter rest
  | none =>
    split_ifs with hprintable
    · have hquote : c ≠ '"' := fun h => by simp [escapeLetter?, h] at hletter
      have hslash : c ≠ '\\' := fun h => by simp [escapeLetter?, h] at hletter
      rw [List.singleton_append, readUnits_cons hquote hslash (by omega), codeUnits, if_pos (by omega)]
      rfl
    · exact readUnits_escapeUnits (codeUnits_lt c) rest

theorem readUnits_quote (cs : List Char) (rest : Text) :
    readUnits (cs.flatMap quoteChar ++ '"' :: rest) = some (cs.flatMap codeUnits, rest) := by
  induction cs with
  | nil =>
    rw [readUnits.eq_def]
    rfl
  | cons c cs ih =>
    rw [List.flatMap_cons, List.append_assoc, readUnits_quoteChar, ih]
    rfl

theorem unitChar_toNat (c : Char) : unitChar c.toNat = c := by
  rw [unitChar, if_pos (show c.toNat.isValidChar from c.valid), Char.ofNat_toNat]

theorem joinUnits_cons (h : isHigh n = false) (units : List Nat) :
    joinUnits (n :: units) = unitChar n :: joinUnits units := by
  cases units with
  | nil => rfl
  | cons m units => simp [joinUnits, h]

/-- **The code units of a string** are joined to its characters. -/
theorem joinUnits_codeUnits (cs : List Char) : joinUnits (cs.flatMap codeUnits) = cs := by
  induction cs with
  | nil => rfl
  | cons c cs ih =>
    have hc := toNat_valid c
    rw [List.flatMap_cons, codeUnits]
    split_ifs with h
    · have hhigh : isHigh c.toNat = false := by
        simp only [isHigh, Bool.and_eq_false_iff, decide_eq_false_iff_not]
        omega
      rw [List.singleton_append, joinUnits_cons hhigh, ih, unitChar_toNat]
    · have hpair : (isHigh (0xd800 + (c.toNat - 0x10000) / 1024) &&
          isLow (0xdc00 + (c.toNat - 0x10000) % 1024)) = true := by
        simp only [isHigh, isLow, Bool.and_eq_true, decide_eq_true_eq]
        omega
      simp only [List.cons_append, List.nil_append]
      rw [joinUnits, if_pos hpair, ih]
      have hcode : 0x10000 + (0xd800 + (c.toNat - 0x10000) / 1024 - 0xd800) * 1024 +
          (0xdc00 + (c.toNat - 0x10000) % 1024 - 0xdc00) = c.toNat := by omega
      rw [hcode, Char.ofNat_toNat]

theorem readString_quote (s : String) (rest : Text) :
    readString (s.toList.flatMap quoteChar ++ '"' :: rest) = some (s, rest) := by
  rw [readString, readUnits_quote, Option.map_some, joinUnits_codeUnits, String.ofList_toList]

/-! ### Numbers -/

theorem isDigit_toDigits (n : Nat) : ∀ c ∈ Nat.toDigits 10 n, c.isDigit = true := fun _ hc =>
  Nat.isDigit_of_mem_toDigits (by decide) (by decide) hc

theorem digitChar_ne_zero : ∀ n < 10, 0 < n → n.digitChar ≠ '0' := by decide

theorem isWhole_toDigits (n : Nat) : isWhole (Nat.toDigits 10 n) = true := by
  have hhead : 0 < n → (Nat.toDigits 10 n).head? ≠ some '0' := by
    induction n using Nat.strong_induction_on with
    | _ n ih =>
      intro hn
      by_cases hlt : n < 10
      · rw [Nat.toDigits_of_lt_base hlt]
        simpa using digitChar_ne_zero n hlt hn
      · rw [Nat.toDigits_of_base_le (by decide) (by omega),
          List.head?_append_of_ne_nil _ Nat.toDigits_ne_nil]
        exact ih (n / 10) (by omega) (by omega)
  rcases Nat.eq_zero_or_pos n with rfl | hn
  · decide
  · simp only [isWhole, Bool.or_eq_true, Bool.and_eq_true, decide_eq_true_eq, List.all_eq_true]
    exact .inr ⟨⟨hhead hn, Nat.toDigits_ne_nil⟩, isDigit_toDigits n⟩

theorem unsigned_toDigits (n : Nat) : unsigned (Nat.toDigits 10 n) = Nat.toDigits 10 n := by
  have hdigits := isDigit_toDigits n
  unfold unsigned
  split
  · rename_i text heq
    exact absurd (hdigits '-' (heq ▸ List.mem_cons_self)) (by decide)
  · rfl

theorem isInt_intText (z : Int) : isInt (intText z) = true := by
  cases z with
  | ofNat n => rw [intText, isInt, unsigned_toDigits, isWhole_toDigits]
  | negSucc n => exact isWhole_toDigits (n + 1)

theorem readInt_intText (z : Int) : readInt (intText z) = z := by
  cases z with
  | ofNat n =>
    have hdigits := isDigit_toDigits n
    rw [intText]
    unfold readInt
    split
    · rename_i text heq
      exact absurd (hdigits '-' (heq ▸ List.mem_cons_self)) (by decide)
    · rw [Nat.ofDigitChars_ten_toDigits]
      rfl
  | negSucc n =>
    rw [intText, readInt, Nat.ofDigitChars_ten_toDigits]
    rfl

theorem intText_ne_nil (z : Int) : intText z ≠ [] := by
  cases z with
  | ofNat n => exact Nat.toDigits_ne_nil
  | negSucc n => exact List.cons_ne_nil _ _

theorem isNumeric_intText (z : Int) : ∀ c ∈ intText z, isNumeric c = true := by
  cases z with
  | ofNat n =>
    intro c hc
    simp [isNumeric, isDigit_toDigits n c hc]
  | negSucc n =>
    intro c hc
    rcases List.mem_cons.mp hc with rfl | hc
    · decide
    · simp [isNumeric, isDigit_toDigits (n + 1) c hc]

theorem isFloat_eq_false {text : Text} (h : isInt text = true) : isFloat text = false := by
  have hdigits : ∀ c ∈ unsigned text, c.isDigit = true := by
    simp only [isInt, isWhole, Bool.or_eq_true, Bool.and_eq_true, decide_eq_true_eq,
      List.all_eq_true] at h
    rcases h with h | h
    · rw [h]
      exact List.all_eq_true.mp (by decide)
    · exact h.2
  have hmem : ∀ c ∈ text, c = '-' ∨ c ∈ unsigned text := by
    unfold unsigned
    split
    · exact fun c hc => List.mem_cons.mp hc
    · exact fun c hc => .inr hc
  have hnone : text.any (fun c => c = '.' || isE c) = false := by
    rw [List.any_eq_false]
    intro c hc hpoint
    rcases hmem c hc with rfl | hc
    · simp [isE] at hpoint
    · have := hdigits c hc
      simp only [isE, Bool.or_eq_true, decide_eq_true_eq] at hpoint
      rcases hpoint with rfl | rfl | rfl <;> simp at this
  simp [isFloat, hnone]

/-! ### Words -/

theorem isBare_of_isNumeric (h : isNumeric c = true) : isBare c = true := by
  simp only [isNumeric, isE, Bool.or_eq_true, decide_eq_true_eq] at h
  rcases h with (((h | rfl) | rfl) | rfl) | rfl | rfl
  · have hdigit : ∀ d : Char, d.isDigit = false → c ≠ d := by
      rintro d hd rfl
      simp [h] at hd
    simp [isBare, Char.isWhitespace, hdigit]
  all_goals decide

section
variable {F : Type} (fmt : FloatFormat F) {cs rest : Text}

theorem readWord_int (z : Int) : readWord fmt (intText z) = some (.int z) := by
  have hword : ∀ word : Text, isInt word = false → intText z ≠ word := by
    rintro word hword rfl
    simp [isInt_intText] at hword
  unfold readWord
  rw [if_neg (hword _ (by decide)), if_neg (hword _ (by decide)), if_neg (hword _ (by decide)),
    if_pos (isInt_intText z), readInt_intText]

theorem readWord_float {word : Text} (h : isFloat word = true) :
    readWord fmt word = some (.float (fmt.read word)) := by
  have hword : ∀ word' : Text, isFloat word' = false → word ≠ word' := by
    rintro word' hword' rfl
    simp [h] at hword'
  have hint : ¬ isInt word = true := fun hint => by simp [isFloat_eq_false hint] at h
  unfold readWord
  rw [if_neg (hword _ (by decide)), if_neg (hword _ (by decide)), if_neg (hword _ (by decide)),
    if_neg hint, if_pos h]

/-- What comes after a value: a word ends there. -/
def Ends (rest : Text) : Prop := ∀ c ∈ rest.head?, isBare c = false

theorem takeWhile_bare {word rest : Text} (hword : ∀ c ∈ word, isBare c = true) (hends : Ends rest) :
    (word ++ rest).takeWhile isBare = word ∧ (word ++ rest).dropWhile isBare = rest := by
  have hrest : rest.takeWhile isBare = [] ∧ rest.dropWhile isBare = rest := by
    cases rest with
    | nil => exact ⟨rfl, rfl⟩
    | cons c rest =>
      have hc := hends c rfl
      simp [hc]
  rw [List.takeWhile_append_of_pos hword, List.dropWhile_append_of_pos hword, hrest.1, hrest.2,
    List.append_nil]
  exact ⟨rfl, rfl⟩

theorem readValue_word {word rest : Text} (hne : word ≠ []) (hword : ∀ c ∈ word, isBare c = true)
    (hends : Ends rest) (n : Nat) :
    readValue fmt (n + 1) (word ++ rest) = (readWord fmt word).map fun j => (j, rest) := by
  obtain ⟨htake, hdrop⟩ := takeWhile_bare hword hends
  obtain ⟨c, word, rfl⟩ := List.exists_cons_of_ne_nil hne
  have hc := hword c List.mem_cons_self
  rw [readValue.eq_def]
  dsimp only
  split
  case h_4 => rw [htake, hdrop]
  all_goals
    rename_i heq
    cases heq
    simp [isBare] at hc

/-! ### Values -/

mutual

/-- The floats are read back, and no key of an object is repeated. -/
def Proper : Json F → Prop
  | .float x => fmt.Exact x
  | .arr xs => ProperElements xs
  | .obj items => (items.map Prod.fst).Nodup ∧ ProperMembers items
  | _ => True

def ProperElements : List (Json F) → Prop
  | [] => True
  | x :: xs => x.Proper ∧ ProperElements xs

def ProperMembers : List (String × Json F) → Prop
  | [] => True
  | (_, v) :: items => v.Proper ∧ ProperMembers items

end

theorem dictItems_of_nodup {β : Type} {items : List (String × β)} (h : (items.map Prod.fst).Nodup) :
    dictItems items = items := by
  suffices hacc : ∀ acc : List (String × β), ((acc ++ items).map Prod.fst).Nodup →
      items.foldl (fun d item => Dict.assign item.1 item.2 d) acc = acc ++ items from
    hacc [] h
  clear h
  induction items with
  | nil => simp
  | cons item items ih =>
    intro acc hnodup
    have hnew : item.1 ∉ acc.map Prod.fst := by
      rw [List.map_append, List.map_cons] at hnodup
      exact fun hmem => (List.disjoint_of_nodup_append hnodup) hmem List.mem_cons_self
    rw [List.foldl_cons, Dict.assign_of_notMem hnew, ih _ (by simpa using hnodup)]
    simp

theorem skipSpaces_cons (h : c.isWhitespace = false) (rest : Text) : skipSpaces (c :: rest) = c :: rest := by
  simp [skipSpaces, h]

theorem skipSpaces_space (rest : Text) : skipSpaces (' ' :: rest) = skipSpaces rest := rfl

theorem repr_ne_nil {x : F} (hx : fmt.Exact x) : fmt.repr x ≠ [] := by
  intro hnil
  have hfloat := fmt.isFloat_repr x hx
  rw [hnil] at hfloat
  exact absurd hfloat (by decide)

theorem isNumeric_repr {x : F} (hx : fmt.Exact x) : ∀ c ∈ fmt.repr x, isNumeric c = true := by
  have hfloat := fmt.isFloat_repr x hx
  simp only [isFloat, Bool.and_eq_true, List.all_eq_true] at hfloat
  exact hfloat.1.1.1.1

theorem print_eq_cons {j : Json F} (h : j.Proper fmt) :
    ∃ c cs, print fmt j = c :: cs ∧ c.isWhitespace = false ∧ c ≠ ']' := by
  have hnumber : ∀ word : Text, word ≠ [] → (∀ c ∈ word, isNumeric c = true) →
      ∃ c cs, word = c :: cs ∧ c.isWhitespace = false ∧ c ≠ ']' := by
    intro word hne hnumeric
    obtain ⟨c, cs, rfl⟩ := List.exists_cons_of_ne_nil hne
    have hc := isBare_of_isNumeric (hnumeric c List.mem_cons_self)
    simp only [isBare, Bool.and_eq_true, Bool.not_eq_true', decide_eq_true_eq, List.mem_cons,
      not_or] at hc
    exact ⟨c, cs, rfl, hc.1, hc.2.2.2.2.1⟩
  cases j with
  | null => exact ⟨_, _, rfl, by decide, by decide⟩
  | bool b => cases b <;> exact ⟨_, _, rfl, by decide, by decide⟩
  | int z => exact hnumber (intText z) (intText_ne_nil z) (isNumeric_intText z)
  | float x => exact hnumber (fmt.repr x) (repr_ne_nil fmt h) (isNumeric_repr fmt h)
  | str s => exact ⟨_, _, rfl, by decide, by decide⟩
  | arr xs => cases xs <;> exact ⟨_, _, rfl, by decide, by decide⟩
  | obj items => cases items <;> exact ⟨_, _, rfl, by decide, by decide⟩

/-! ### One step of the reader -/

theorem readValue_quote (n : Nat) (s : String) (rest : Text) :
    readValue fmt (n + 1) (quote s ++ rest) = some (.str s, rest) := by
  have h := readString_quote s rest
  rw [quote, List.cons_append, List.append_assoc, List.singleton_append, readValue, h]
  rfl

theorem readValue_bracket {rest cs : Text} {x : Json F}
    (hc : c.isWhitespace = false ∧ c ≠ ']') (hread : readValue fmt n (c :: cs) = some (x, rest)) :
    readValue fmt (n + 1) ('[' :: c :: cs) =
      (readElements fmt n rest).map fun p => (.arr (x :: p.1), p.2) := by
  rw [readValue, skipSpaces_cons hc.1]
  split
  · rename_i heq
    cases heq
    exact absurd rfl hc.2
  · rw [hread]

theorem readValue_brace {item : String × Json F}
    (hread : readMember fmt n ('"' :: cs) = some (item, rest)) :
    readValue fmt (n + 1) ('{' :: '"' :: cs) =
      (readMembers fmt n rest).map fun p => (.obj (dictItems (item :: p.1)), p.2) := by
  rw [readValue, skipSpaces_cons (by decide)]
  split
  · rename_i heq
    simp at heq
  · rw [hread]

theorem readElements_comma {x : Json F}
    (hc : c.isWhitespace = false) (hread : readValue fmt n (c :: cs) = some (x, rest)) :
    readElements fmt (n + 1) (',' :: ' ' :: c :: cs) = (readElements fmt n rest).map fun p => (x :: p.1, p.2) := by
  rw [readElements, skipSpaces_cons (by decide)]
  split
  · rename_i heq
    simp at heq
  · rename_i heq
    cases heq
    rw [skipSpaces_space, skipSpaces_cons hc, hread]
  · rename_i hne
    exact absurd rfl (hne _)

theorem readMember_quote {k : String} {v : Json F}
    (hc : c.isWhitespace = false) (hread : readValue fmt n (c :: cs) = some (v, rest)) :
    readMember fmt (n + 1) (quote k ++ ':' :: ' ' :: c :: cs) = some ((k, v), rest) := by
  have h := readString_quote k (':' :: ' ' :: c :: cs)
  rw [quote, List.cons_append, List.append_assoc, List.singleton_append, readMember, h]
  change (readValue fmt n (skipSpaces (c :: cs))).map _ = _
  rw [skipSpaces_cons hc, hread]
  rfl

theorem readMembers_comma {item : String × Json F} (hread : readMember fmt n ('"' :: cs) = some (item, rest)) :
    readMembers fmt (n + 1) (',' :: ' ' :: '"' :: cs) = (readMembers fmt n rest).map fun p => (item :: p.1, p.2) := by
  rw [readMembers, skipSpaces_cons (by decide)]
  split
  · rename_i heq
    simp at heq
  · rename_i heq
    cases heq
    rw [skipSpaces_space, skipSpaces_cons (by decide), hread]
  · rename_i hne
    exact absurd rfl (hne _)

/-! ### Reading a printed value -/

theorem ends_printElements (xs : List (Json F)) (rest : Text) : Ends (printElements fmt xs ++ rest) := by
  cases xs <;> rintro c ⟨⟩ <;> decide

theorem ends_printMembers (items : List (String × Json F)) (rest : Text) : Ends (printMembers fmt items ++ rest) := by
  cases items with
  | nil => rintro c ⟨⟩; decide
  | cons item items => obtain ⟨k, v⟩ := item; rintro c ⟨⟩; decide

variable {rest : Text}

theorem readValue_null (n : Nat) (hends : Ends rest) :
    readValue fmt (n + 1) (print fmt .null ++ rest) = some (.null, rest) := by
  rw [print, readValue_word fmt (by decide) (List.all_eq_true.mp (by decide)) hends]
  rfl

theorem readValue_bool (b : Bool) (n : Nat) (hends : Ends rest) :
    readValue fmt (n + 1) (print fmt (.bool b) ++ rest) = some (.bool b, rest) := by
  cases b <;> rw [print, readValue_word fmt (by decide) (List.all_eq_true.mp (by decide)) hends] <;> rfl

theorem readValue_int (z : Int) (n : Nat) (hends : Ends rest) :
    readValue fmt (n + 1) (print fmt (.int z) ++ rest) = some (.int z, rest) := by
  rw [print, readValue_word fmt (intText_ne_nil z)
    (fun c hc => isBare_of_isNumeric (isNumeric_intText z c hc)) hends, readWord_int]
  rfl

theorem readValue_float {x : F} (hx : fmt.Exact x) (n : Nat) (hends : Ends rest) :
    readValue fmt (n + 1) (print fmt (.float x) ++ rest) = some (.float x, rest) := by
  rw [print, readValue_word fmt (repr_ne_nil fmt hx)
    (fun c hc => isBare_of_isNumeric (isNumeric_repr fmt hx c hc)) hends,
    readWord_float fmt (fmt.isFloat_repr x hx), fmt.read_repr x hx]
  rfl

theorem readMember_print (k : String) {v : Json F} (hv : v.Proper fmt) (hn : (print fmt v).length < n)
    (hread : ∀ m, (print fmt v).length ≤ m →
      readValue fmt m (print fmt v ++ rest) = some (v, rest)) :
    readMember fmt n (quote k ++ ':' :: ' ' :: (print fmt v ++ rest)) = some ((k, v), rest) := by
  obtain ⟨m, rfl⟩ := Nat.exists_eq_add_of_lt hn
  obtain ⟨c, cs, hprint, hc, -⟩ := print_eq_cons fmt hv
  have hvalue := hread ((print fmt v).length + m) (by omega)
  rw [hprint, List.cons_append] at hvalue ⊢
  exact readMember_quote fmt hc hvalue

mutual

/-- **The text of a value is read as the value**, up to its end. -/
theorem readValue_print : ∀ (j : Json F) (n : Nat) (rest : Text), j.Proper fmt →
    (print fmt j).length ≤ n → Ends rest → readValue fmt n (print fmt j ++ rest) = some (j, rest)
  | .null, n + 1, rest, _, _, hends => readValue_null fmt n hends
  | .bool b, n + 1, rest, _, _, hends => readValue_bool fmt b n hends
  | .int z, n + 1, rest, _, _, hends => readValue_int fmt z n hends
  | .float x, n + 1, rest, h, _, hends => readValue_float fmt h n hends
  | .str s, n + 1, rest, _, _, _ => readValue_quote fmt n s rest
  | .arr [], n + 1, rest, _, _, _ | .obj [], n + 1, rest, _, _, _ => rfl
  | .arr (x :: xs), n + 1, rest, ⟨hx, hxs⟩, hn, _ => by
    rw [print, List.length_cons, List.length_append] at hn
    obtain ⟨c, cs, hprint, hc⟩ := print_eq_cons fmt hx
    have hread := readValue_print x n (printElements fmt xs ++ rest) hx (by omega)
      (ends_printElements fmt xs rest)
    rw [hprint, List.cons_append] at hread
    rw [print, hprint, List.cons_append, List.cons_append, List.cons_append, List.append_assoc,
      readValue_bracket fmt hc hread, readElements_print xs n rest hxs (by omega)]
    rfl
  | .obj ((k, v) :: items), n + 1, rest, ⟨hkeys, hv, hitems⟩, hn, _ => by
    rw [print] at hn
    simp only [List.length_cons, List.length_append] at hn
    have hread := readMember_print fmt k hv (show _ < n by omega) fun m hm =>
      readValue_print v m _ hv hm (ends_printMembers fmt items rest)
    have hmembers := readMembers_print items n rest hitems (by omega)
    rw [quote, List.cons_append] at hread
    rw [print, quote]
    simp only [List.cons_append, List.append_assoc] at hread ⊢
    rw [readValue_brace fmt hread, hmembers, Option.map_some, dictItems_of_nodup hkeys]
  | j, 0, rest, h, hn, _ => by
    obtain ⟨c, cs, hprint, -⟩ := print_eq_cons fmt h
    simp [hprint] at hn

theorem readElements_print : ∀ (xs : List (Json F)) (n : Nat) (rest : Text), ProperElements fmt xs →
    (printElements fmt xs).length ≤ n →
    readElements fmt n (printElements fmt xs ++ rest) = some (xs, rest)
  | [], n + 1, rest, _, _ => rfl
  | x :: xs, n + 1, rest, ⟨hx, hxs⟩, hn => by
    rw [printElements] at hn
    simp only [List.length_cons, List.length_append] at hn
    obtain ⟨c, cs, hprint, hc, -⟩ := print_eq_cons fmt hx
    have hread := readValue_print x n (printElements fmt xs ++ rest) hx (by omega)
      (ends_printElements fmt xs rest)
    rw [hprint, List.cons_append] at hread
    rw [printElements, hprint]
    simp only [List.cons_append, List.append_assoc]
    rw [readElements_comma fmt hc hread, readElements_print xs n rest hxs (by omega)]
    rfl
  | [], 0, rest, _, hn | _ :: _, 0, rest, _, hn => by simp [printElements] at hn

theorem readMembers_print : ∀ (items : List (String × Json F)) (n : Nat) (rest : Text),
    ProperMembers fmt items → (printMembers fmt items).length ≤ n →
    readMembers fmt n (printMembers fmt items ++ rest) = some (items, rest)
  | [], n + 1, rest, _, _ => rfl
  | (k, v) :: items, n + 1, rest, ⟨hv, hitems⟩, hn => by
    rw [printMembers] at hn
    simp only [List.length_cons, List.length_append] at hn
    have hread := readMember_print fmt k hv (show _ < n by omega) fun m hm =>
      readValue_print v m _ hv hm (ends_printMembers fmt items rest)
    have hmembers := readMembers_print items n rest hitems (by omega)
    rw [quote, List.cons_append] at hread
    rw [printMembers, quote]
    simp only [List.cons_append, List.append_assoc] at hread ⊢
    rw [readMembers_comma fmt hread, hmembers]
    rfl
  | [], 0, rest, _, hn | (_, _) :: _, 0, rest, _, hn => by simp [printMembers] at hn

end

theorem loads_print_append {j : Json F} (h : j.Proper fmt) (hends : Ends rest) :
    loads fmt (print fmt j ++ rest) = if skipSpaces rest = [] then some j else none := by
  obtain ⟨c, cs, hprint, hc, -⟩ := print_eq_cons fmt h
  have hread := readValue_print fmt j ((print fmt j ++ rest).length + 1) rest h
    (by rw [List.length_append]; omega) hends
  have hstart : skipSpaces (print fmt j ++ rest) = print fmt j ++ rest := by
    rw [hprint, List.cons_append, skipSpaces_cons hc]
  unfold loads
  rw [hstart, hread]

/-- **`json.loads(json.dumps(j)) == j`** -/
theorem loads_print {j : Json F} (h : j.Proper fmt) : loads fmt (print fmt j) = some j := by
  have hread := loads_print_append fmt h (show Ends [] by simp [Ends])
  rwa [List.append_nil] at hread

end

end MeshWeaver.Lib.Json
