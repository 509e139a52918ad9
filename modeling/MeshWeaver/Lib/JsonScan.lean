import Mathlib.Data.List.TakeWhile
import MeshWeaver.Lib.JsonRoundTrip
import MeshWeaver.Lib.Run

/-!
# Torn texts

A scanner that only counts brackets and follows strings. Every text that is read as a value brings it back
to where it started, so a text that does not is rejected. The part of an object's text before its last
character leaves a bracket or a string open, and this is not mended by another object's text behind it: it
closes every bracket that it opens, and inside a string it is turned inside out.
-/

namespace MeshWeaver.Lib.Json

/-- Where a reader stands: the number of open brackets, and whether it is in a string or behind a backslash. -/
inductive Scan where
  | out (depth : Nat)
  | str (depth : Nat)
  | esc (depth : Nat)
  | dead
deriving DecidableEq

namespace Scan

def step : Scan → Char → Scan
  | .out depth, c =>
    if c = '"' then .str depth
    else if c = '[' ∨ c = '{' then .out (depth + 1)
    else if c = ']' ∨ c = '}' then .out (depth - 1)
    else if c = '\\' then .dead
    else .out depth
  | .str depth, c =>
    if c = '"' then .out depth
    else if c = '\\' then .esc depth
    else .str depth
  | .esc depth, c => if c = 'u' ∨ (escaped? c).isSome then .str depth else .dead
  | .dead, _ => .dead

theorem run_dead (text : Text) : run step .dead text = .dead := by
  induction text with
  | nil => rfl
  | cons c text ih => exact ih

/-! ### What is read closes what it opens -/

/-- Reading up to `rest` takes the scanner from `f` to `g`, at whatever depth. -/
def Moves (f g : Nat → Scan) (text rest : Text) : Prop :=
  ∃ consumed, text = consumed ++ rest ∧ ∀ depth, run step (f depth) consumed = g depth

variable {f g h : Nat → Scan} {text mid rest u : Text} {c : Char} {d e : Nat} {s s' s'' : Scan}

theorem Moves.refl (f : Nat → Scan) (text : Text) : Moves f f text text := ⟨[], rfl, fun _ => rfl⟩

theorem Moves.trans (hfg : Moves f g text mid) (hgh : Moves g h mid rest) : Moves f h text rest := by
  obtain ⟨first, rfl, hfirst⟩ := hfg
  obtain ⟨second, rfl, hsecond⟩ := hgh
  refine ⟨first ++ second, by rw [List.append_assoc], fun depth => ?_⟩
  rw [run_append, hfirst, hsecond]

theorem Moves.cons (hc : ∀ depth, (f depth).step c = g depth) (hgh : Moves g h text rest) :
    Moves f h (c :: text) rest := by
  obtain ⟨consumed, rfl, hconsumed⟩ := hgh
  refine ⟨c :: consumed, rfl, fun depth => ?_⟩
  rw [run_cons, hc, hconsumed]

theorem Moves.deeper (hfg : Moves .out .out text rest) :
    Moves (fun depth => .out (depth + 1)) (fun depth => .out (depth + 1)) text rest := by
  obtain ⟨consumed, rfl, hconsumed⟩ := hfg
  exact ⟨consumed, rfl, fun depth => hconsumed (depth + 1)⟩

/-- Characters that mean nothing outside a string. -/
def Plain (c : Char) : Prop := ∀ depth, (Scan.out depth).step c = .out depth

theorem run_plain (hplain : ∀ c ∈ text, Plain c) (depth : Nat) : run step (.out depth) text = .out depth := by
  induction text with
  | nil => rfl
  | cons c text ih =>
    rw [run_cons, hplain c List.mem_cons_self depth]
    exact ih fun c hc => hplain c (List.mem_cons_of_mem _ hc)

theorem plain_of_isBare (hc : isBare c = true) : Plain c := by
  intro depth
  simp only [isBare, Bool.and_eq_true, Bool.not_eq_true', decide_eq_true_eq, List.mem_cons,
    not_or] at hc
  obtain ⟨-, -, -, hopen, hclose, hopen', hclose', hquote, hslash, -⟩ := hc
  simp [step, hopen, hclose, hopen', hclose', hquote, hslash]

theorem plain_of_isWhitespace (hc : c.isWhitespace = true) : Plain c := by
  intro depth
  simp only [Char.isWhitespace, Bool.or_eq_true, decide_eq_true_eq] at hc
  rcases hc with ((rfl | rfl) | rfl) | rfl <;> rfl

theorem Moves.dropWhile {p : Char → Bool} (hp : ∀ c, p c = true → Plain c) (text : Text) :
    Moves .out .out text (text.dropWhile p) :=
  ⟨text.takeWhile p, List.takeWhile_append_dropWhile.symm, fun depth =>
    run_plain (fun c hc => hp c (List.mem_takeWhile_imp hc)) depth⟩

theorem Moves.skipSpaces (text : Text) : Moves .out .out text (skipSpaces text) :=
  .dropWhile (fun _ => plain_of_isWhitespace) text

theorem step_str (hquote : c ≠ '"') (hslash : c ≠ '\\') (depth : Nat) : (str depth).step c = .str depth := by
  rw [step, if_neg hquote, if_neg hslash]

theorem step_hex (h : (hexValue? c).isSome) (depth : Nat) : (str depth).step c = .str depth := by
  refine step_str ?_ ?_ depth
  all_goals
    rintro rfl
    revert h
    decide

theorem isSome_hexUnit? {a b d : Char} {n : Nat} (h : hexUnit? a b c d = some n) :
    (hexValue? a).isSome ∧ (hexValue? b).isSome ∧ (hexValue? c).isSome ∧ (hexValue? d).isSome := by
  unfold hexUnit? at h
  split at h
  · simp_all
  · cases h

theorem Moves.of_readUnits {units : List Nat} (h : readUnits text = some (units, rest)) :
    Moves .str .out text rest := by
  fun_induction readUnits text generalizing units rest with
  | case1 => cases h
  | case2 rest' =>
    cases h
    exact .cons (fun _ => rfl) (.refl _ _)
  | case3 h₁ h₂ h₃ h₄ rest' n hn _ ih =>
    obtain ⟨⟨units', rest''⟩, hread, heq⟩ := Option.map_eq_some_iff.mp h
    cases heq
    obtain ⟨hh₁, hh₂, hh₃, hh₄⟩ := isSome_hexUnit? hn
    exact .cons (g := .esc) (fun _ => rfl) <| .cons (fun _ => rfl) <| .cons (step_hex hh₁) <|
      .cons (step_hex hh₂) <| .cons (step_hex hh₃) <| .cons (step_hex hh₄) (ih hread)
  | case4 => cases h
  | case5 e rest' _ n hn _ ih =>
    obtain ⟨⟨units', rest''⟩, hread, heq⟩ := Option.map_eq_some_iff.mp h
    cases heq
    exact .cons (g := .esc) (fun _ => rfl) (.cons (fun _ => if_pos (Or.inr (by rw [hn]; rfl))) (ih hread))
  | case6 | case7 | case8 => cases h
  | case9 c rest' hquote hslash hcontrol ih =>
    obtain ⟨⟨units', rest''⟩, hread, heq⟩ := Option.map_eq_some_iff.mp h
    cases heq
    exact .cons (step_str hquote hslash) (ih hread)

theorem Moves.of_readString {s : String} (h : readString text = some (s, rest)) : Moves .str .out text rest := by
  obtain ⟨⟨units, rest'⟩, hread, heq⟩ := Option.map_eq_some_iff.mp h
  cases heq
  exact .of_readUnits hread

section
variable {F : Type} (fmt : FloatFormat F)

def inner (depth : Nat) : Scan := .out (depth + 1)

/-- **What is read closes what it opens**: a value ends where it began, and the rest of an array or an
object one bracket further out. -/
structure Closes (n : Nat) : Prop where
  value : ∀ {text j rest}, readValue fmt n text = some (j, rest) → Moves .out .out text rest
  elements : ∀ {text xs rest}, readElements fmt n text = some (xs, rest) → Moves inner .out text rest
  member : ∀ {text item rest}, readMember fmt n text = some (item, rest) → Moves .out .out text rest
  members : ∀ {text items rest}, readMembers fmt n text = some (items, rest) → Moves inner .out text rest

variable {fmt} {n : Nat} {text rest : Text}

theorem Closes.zero : Closes fmt 0 := by
  constructor
  · intro text j rest h
    cases h
  · intro text xs rest h
    cases h
  · intro text item rest h
    cases h
  · intro text items rest h
    cases h

theorem Closes.readValue (h : Closes fmt n) {j : Json F}
    (hread : Json.readValue fmt (n + 1) text = some (j, rest)) : Moves .out .out text rest := by
  rw [Json.readValue.eq_def] at hread
  dsimp only at hread
  split at hread
  · -- a string
    obtain ⟨⟨s, rest₁⟩, hstring, heq⟩ := Option.map_eq_some_iff.mp hread
    cases heq
    exact .cons (fun _ => rfl) (.of_readString hstring)
  · -- an array
    rename_i text
    refine .cons (g := inner) (fun _ => rfl) ((Moves.skipSpaces text).deeper.trans ?_)
    split at hread
    · rename_i rest₁ hclose
      cases hread
      rw [hclose]
      exact .cons (fun _ => rfl) (.refl _ _)
    · split at hread
      · cases hread
      · rename_i x rest₁ hx
        obtain ⟨⟨xs, rest₂⟩, hxs, heq⟩ := Option.map_eq_some_iff.mp hread
        cases heq
        exact (h.value hx).deeper.trans (h.elements hxs)
  · -- an object
    rename_i text
    refine .cons (g := inner) (fun _ => rfl) ((Moves.skipSpaces text).deeper.trans ?_)
    split at hread
    · rename_i rest₁ hclose
      cases hread
      rw [hclose]
      exact .cons (fun _ => rfl) (.refl _ _)
    · split at hread
      · cases hread
      · rename_i item rest₁ hitem
        obtain ⟨⟨items, rest₂⟩, hitems, heq⟩ := Option.map_eq_some_iff.mp hread
        cases heq
        exact (h.member hitem).deeper.trans (h.members hitems)
  · -- a word
    obtain ⟨j', -, heq⟩ := Option.map_eq_some_iff.mp hread
    cases heq
    exact .dropWhile (fun _ => plain_of_isBare) text

theorem Closes.readElements (h : Closes fmt n) {xs : List (Json F)}
    (hread : Json.readElements fmt (n + 1) text = some (xs, rest)) : Moves inner .out text rest := by
  rw [Json.readElements.eq_def] at hread
  dsimp only at hread
  refine (Moves.skipSpaces text).deeper.trans ?_
  split at hread
  · rename_i rest₁ hclose
    cases hread
    rw [hclose]
    exact .cons (fun _ => rfl) (.refl _ _)
  · rename_i rest₁ hcomma
    rw [hcomma]
    refine .cons (g := inner) (fun _ => rfl) ((Moves.skipSpaces rest₁).deeper.trans ?_)
    split at hread
    · cases hread
    · rename_i x rest₂ hx
      obtain ⟨⟨xs', rest₃⟩, hxs, heq⟩ := Option.map_eq_some_iff.mp hread
      cases heq
      exact (h.value hx).deeper.trans (h.elements hxs)
  · cases hread

theorem Closes.readMember (h : Closes fmt n) {item : String × Json F}
    (hread : Json.readMember fmt (n + 1) text = some (item, rest)) : Moves .out .out text rest := by
  rw [Json.readMember.eq_def] at hread
  dsimp only at hread
  split at hread
  · split at hread
    · cases hread
    · rename_i k rest₁ hk
      refine .cons (fun _ => rfl) ((Moves.of_readString hk).trans ((Moves.skipSpaces rest₁).trans ?_))
      split at hread
      · rename_i rest₂ hcolon
        obtain ⟨⟨v, rest₃⟩, hv, heq⟩ := Option.map_eq_some_iff.mp hread
        cases heq
        rw [hcolon]
        exact .cons (fun _ => rfl) ((Moves.skipSpaces rest₂).trans (h.value hv))
      · cases hread
  · cases hread

theorem Closes.readMembers (h : Closes fmt n) {items : List (String × Json F)}
    (hread : Json.readMembers fmt (n + 1) text = some (items, rest)) : Moves inner .out text rest := by
  rw [Json.readMembers.eq_def] at hread
  dsimp only at hread
  refine (Moves.skipSpaces text).deeper.trans ?_
  split at hread
  · rename_i rest₁ hclose
    cases hread
    rw [hclose]
    exact .cons (fun _ => rfl) (.refl _ _)
  · rename_i rest₁ hcomma
    rw [hcomma]
    refine .cons (g := inner) (fun _ => rfl) ((Moves.skipSpaces rest₁).deeper.trans ?_)
    split at hread
    · cases hread
    · rename_i item rest₂ hitem
      obtain ⟨⟨items', rest₃⟩, hitems, heq⟩ := Option.map_eq_some_iff.mp hread
      cases heq
      exact (h.member hitem).deeper.trans (h.members hitems)
  · cases hread

theorem closes : ∀ n, Closes fmt n
  | 0 => .zero
  | n + 1 => ⟨(closes n).readValue, (closes n).readElements, (closes n).readMember, (closes n).readMembers⟩

theorem run_of_loads {j : Json F} (h : loads fmt text = some j) : run step (.out 0) text = .out 0 := by
  unfold loads at h
  split at h
  · rename_i j' rest hread
    split_ifs at h with hrest
    have hmoves := (Moves.skipSpaces text).trans (((closes _).value hread).trans (.skipSpaces rest))
    obtain ⟨consumed, htext, hrun⟩ := hmoves
    rw [htext, hrest, List.append_nil]
    exact hrun 0
  · cases h

end

/-! ### What is written leaves something open until its end -/

/-- At least this many brackets are open. -/
def Above (depth : Nat) : Scan → Prop
  | .out e => depth ≤ e
  | .str e => depth ≤ e
  | .esc e => depth ≤ e
  | .dead => False

/-- The text takes the scanner from `s` to `s'`, and before each of its characters at least this many
brackets are open. -/
structure Stays (depth : Nat) (s s' : Scan) (text : Text) : Prop where
  above : Along step (fun s _ => s.Above depth) s text
  ends : run step s text = s'

theorem Stays.nil (d : Nat) (s : Scan) : Stays d s s [] := ⟨trivial, rfl⟩

theorem Stays.cons (hs : s.Above d) (h : Stays d (s.step c) s' text) :
    Stays d s s' (c :: text) := ⟨⟨hs, h.above⟩, h.ends⟩

theorem Stays.append (h : Stays d s s' text) (h' : Stays d s' s'' u) : Stays d s s'' (text ++ u) := by
  refine ⟨h.above.append (h.ends ▸ h'.above), ?_⟩
  rw [run_append, h.ends, h'.ends]

theorem Above.mono (hde : d ≤ e) (h : s.Above e) : s.Above d := by
  cases s with
  | dead => exact h
  | _ => exact le_trans hde h

theorem Stays.mono (hde : d ≤ e) (h : Stays e s s' text) : Stays d s s' text :=
  ⟨h.above.mono fun _ _ => Above.mono hde, h.ends⟩

theorem Stays.plain (hplain : ∀ c ∈ text, Plain c) (d : Nat) : Stays d (.out d) (.out d) text := by
  induction text with
  | nil => exact .nil _ _
  | cons c text ih =>
    refine .cons le_rfl ?_
    rw [hplain c List.mem_cons_self d]
    exact ih fun c hc => hplain c (List.mem_cons_of_mem _ hc)

theorem isSome_hexValue?_digitChar : ∀ n < 16, (hexValue? n.digitChar).isSome = true := by decide

theorem Stays.str (hc : (Scan.str d).step c = .str d) (h : Stays d (.str d) s' text) :
    Stays d (.str d) s' (c :: text) := by
  refine .cons (s := .str d) le_rfl ?_
  rwa [hc]

theorem Stays.escapeUnit (d n : Nat) : Stays d (.str d) (.str d) (escapeUnit n) := by
  have hdigit (m : Nat) := step_hex (isSome_hexValue?_digitChar (m % 16) (Nat.mod_lt m (by decide))) d
  exact .cons (s := .str d) le_rfl <| .cons (s := .esc d) le_rfl <| .str (hdigit _) <| .str (hdigit _) <|
    .str (hdigit _) <| .str (hdigit _) (.nil d _)

theorem Stays.flatMap {α : Type} {f : α → Text} (h : ∀ a, Stays d s s (f a)) (as : List α) :
    Stays d s s (as.flatMap f) := by
  induction as with
  | nil => exact .nil d s
  | cons a as ih =>
    exact (h a).append ih

theorem Stays.quoteChar (d : Nat) (c : Char) : Stays d (.str d) (.str d) (quoteChar c) := by
  unfold Json.quoteChar
  cases hletter : escapeLetter? c with
  | some letter =>
    refine .cons (s := .str d) le_rfl (.cons (s := .esc d) le_rfl ?_)
    unfold escapeLetter? at hletter
    split_ifs at hletter
    all_goals
      cases hletter
      exact .nil d _
  | none =>
    have hquote : c ≠ '"' := fun h => by simp [escapeLetter?, h] at hletter
    have hslash : c ≠ '\\' := fun h => by simp [escapeLetter?, h] at hletter
    split_ifs with hprintable
    · exact .str (step_str hquote hslash d) (.nil d _)
    · exact .flatMap (Stays.escapeUnit d) _

theorem Stays.quote (d : Nat) (str : String) : Stays d (.out d) (.out d) (quote str) :=
  .cons (s := .out d) le_rfl <|
    (Stays.flatMap (Stays.quoteChar d) str.toList).append (.cons (s := .str d) le_rfl (.nil d _))

theorem Stays.word (word : Text) (hword : ∀ c ∈ word, isBare c = true) (d : Nat) :
    Stays d (.out d) (.out d) word := .plain (fun c hc => plain_of_isBare (hword c hc)) d

section
variable {F : Type} (fmt : FloatFormat F)

theorem Stays.float {x : F} (hx : fmt.Exact x) (d : Nat) : Stays d (.out d) (.out d) (fmt.repr x) :=
  .word _ (fun c hc => isBare_of_isNumeric (isNumeric_repr fmt hx c hc)) d

variable {fmt} in
theorem Stays.member {v : Json F} {items : List (String × Json F)} {d : Nat} (k : String)
    (hv : Stays (d + 1) (.out (d + 1)) (.out (d + 1)) (print fmt v))
    (hitems : Stays (d + 1) (.out (d + 1)) (.out d) (printMembers fmt items)) :
    Stays (d + 1) (.out (d + 1)) (.out d) (Json.quote k ++ ':' :: ' ' :: (print fmt v ++ printMembers fmt items)) :=
  (Stays.quote (d + 1) k).append <| .cons (s := .out (d + 1)) le_rfl <|
    .cons (s := .out (d + 1)) le_rfl (hv.append hitems)

mutual

/-- **A written value** ends where it began, and never leaves its depth. -/
theorem Stays.print : ∀ (j : Json F) (d : Nat), j.Proper fmt →
    Stays d (.out d) (.out d) (Json.print fmt j)
  | .null, d, _ => .word "null".toList (List.all_eq_true.mp (by decide)) d
  | .bool true, d, _ => .word "true".toList (List.all_eq_true.mp (by decide)) d
  | .bool false, d, _ => .word "false".toList (List.all_eq_true.mp (by decide)) d
  | .int z, d, _ => .word _ (fun c hc => isBare_of_isNumeric (isNumeric_intText z c hc)) d
  | .float _, d, h => .float fmt h d
  | .str s, d, _ => .quote d s
  | .arr [], d, _ | .obj [], d, _ =>
    .cons (s := .out d) le_rfl (.cons (s := .out (d + 1)) (by simp [Above]) (.nil d _))
  | .arr (x :: xs), d, ⟨hx, hxs⟩ =>
    .cons (s := .out d) le_rfl <|
      ((Stays.print x (d + 1) hx).append (Stays.printElements xs d hxs)).mono (by omega)
  | .obj ((k, v) :: items), d, ⟨_, hv, hitems⟩ =>
    .cons (s := .out d) le_rfl <|
      (Stays.member k (Stays.print v (d + 1) hv) (Stays.printMembers items d hitems)).mono (by omega)

theorem Stays.printElements : ∀ (xs : List (Json F)) (d : Nat), ProperElements fmt xs →
    Stays (d + 1) (.out (d + 1)) (.out d) (Json.printElements fmt xs)
  | [], d, _ => .cons (s := .out (d + 1)) le_rfl (.nil _ _)
  | x :: xs, d, ⟨hx, hxs⟩ =>
    .cons (s := .out (d + 1)) le_rfl <| .cons (s := .out (d + 1)) le_rfl <|
      (Stays.print x (d + 1) hx).append (Stays.printElements xs d hxs)

theorem Stays.printMembers : ∀ (items : List (String × Json F)) (d : Nat), ProperMembers fmt items →
    Stays (d + 1) (.out (d + 1)) (.out d) (Json.printMembers fmt items)
  | [], d, _ => .cons (s := .out (d + 1)) le_rfl (.nil _ _)
  | (k, v) :: items, d, ⟨hv, hitems⟩ =>
    .cons (s := .out (d + 1)) le_rfl <| .cons (s := .out (d + 1)) le_rfl <|
      Stays.member k (Stays.print v (d + 1) hv) (Stays.printMembers items d hitems)

end

theorem Stays.object {items : List (String × Json F)} (h : (Json.obj items).Proper fmt) (d : Nat) :
    ∃ rest, Json.print fmt (.obj items) = '{' :: rest ∧ Stays (d + 1) (.out (d + 1)) (.out d) rest := by
  cases items with
  | nil => exact ⟨_, rfl, .cons (s := .out (d + 1)) le_rfl (.nil _ _)⟩
  | cons item items =>
    obtain ⟨-, hv, hitems⟩ := h
    exact ⟨_, rfl, .member item.1 (Stays.print fmt item.2 (d + 1) hv) (Stays.printMembers fmt items d hitems)⟩

theorem above_of_torn {items : List (String × Json F)} (h : (Json.obj items).Proper fmt) {torn : Text}
    (hcut : torn <+: Json.print fmt (.obj items)) (hne : torn ≠ [])
    (htorn : torn ≠ Json.print fmt (.obj items)) : (run step (.out 0) torn).Above 1 := by
  obtain ⟨rest, hprint, hrest⟩ := Stays.object fmt h 0
  rw [hprint] at hcut htorn
  obtain ⟨c, torn, rfl⟩ := List.exists_cons_of_ne_nil hne
  obtain ⟨rfl, missing, rfl⟩ := List.cons_prefix_cons.mp hcut
  cases missing with
  | nil => simp at htorn
  | cons c missing => exact hrest.above.of_append_right.1

/-! ### Another text behind a torn one -/

/-- Two scanners of the same text, of which one takes for a string what is none to the other. -/
inductive Opposed : Scan → Scan → Prop
  | out (d e : Nat) : Opposed (.out d) (.str e)
  | str (d e : Nat) : Opposed (.str d) (.out e)
  | dead (s : Scan) : Opposed s .dead
  | lost (s : Scan) : Opposed .dead s

theorem Opposed.step {s t : Scan} (h : Opposed s t) (c : Char) : Opposed (s.step c) (t.step c) := by
  cases h with
  | out d e =>
    by_cases hquote : c = '"'
    · subst hquote
      exact .str d e
    by_cases hslash : c = '\\'
    · subst hslash
      exact .lost _
    unfold Scan.step
    dsimp only
    split_ifs
    all_goals exact .out _ e
  | str d e =>
    by_cases hquote : c = '"'
    · subst hquote
      exact .out d e
    by_cases hslash : c = '\\'
    · subst hslash
      exact .dead _
    unfold Scan.step
    dsimp only
    split_ifs
    all_goals exact .str d _
  | dead s => exact .dead _
  | lost s => exact .lost _

theorem Opposed.run {s t : Scan} (h : Opposed s t) (text : Text) :
    Opposed (run Scan.step s text) (run Scan.step t text) := by
  induction text generalizing s t with
  | nil => exact h
  | cons c text ih => exact ih (h.step c)

theorem run_object_ne {items : List (String × Json F)} (h : (Json.obj items).Proper fmt) {s : Scan}
    (hs : s.Above 1) : run step s (Json.print fmt (.obj items)) ≠ .out 0 := by
  have hends (d : Nat) : run step (.out d) (Json.print fmt (.obj items)) = .out d :=
    (Stays.print fmt _ d h).ends
  obtain ⟨rest, hprint, -⟩ := Stays.object fmt h 0
  cases s with
  | out d =>
    rw [hends d]
    rintro ⟨⟩
    exact absurd hs (by simp [Above])
  | str d =>
    -- what is outside of strings in the text is inside of them here
    have hopposed := (Opposed.out 0 d).run (Json.print fmt (.obj items))
    rw [hends 0] at hopposed
    intro heq
    rw [heq] at hopposed
    cases hopposed
  | esc d =>
    rw [hprint, run_cons, show (Scan.esc d).step '{' = .dead from rfl, run_dead]
    simp
  | dead => exact absurd hs id

end

end Scan

section
variable {F : Type} (fmt : FloatFormat F) {items items' : List (String × Json F)} {torn : Text}

theorem not_loads {text : Text} (h : run Scan.step (.out 0) text ≠ .out 0) : loads fmt text = none := by
  cases hread : loads fmt text with
  | none => rfl
  | some j => exact absurd (Scan.run_of_loads hread) h

/-- **A torn object is not read.** -/
theorem loads_torn (h : (obj items).Proper fmt) (hcut : torn <+: print fmt (.obj items))
    (hne : torn ≠ []) (htorn : torn ≠ print fmt (.obj items)) : loads fmt torn = none := by
  have habove := Scan.above_of_torn fmt h hcut hne htorn
  refine not_loads fmt fun heq => ?_
  rw [heq] at habove
  exact absurd habove (by simp [Scan.Above])

theorem loads_torn_append (h : (obj items).Proper fmt) (h' : (obj items').Proper fmt)
    (hcut : torn <+: print fmt (.obj items)) (hne : torn ≠ []) :
    loads fmt (torn ++ print fmt (.obj items')) = none := by
  by_cases htorn : torn = print fmt (.obj items)
  · obtain ⟨rest, hprint, -⟩ := Scan.Stays.object fmt h' 0
    have hspace : skipSpaces ('{' :: rest) = '{' :: rest := skipSpaces_cons (by decide) rest
    rw [htorn, hprint, loads_print_append fmt h (by simp [Ends, isBare]), hspace]
    rfl
  · refine not_loads fmt ?_
    rw [run_append]
    exact Scan.run_object_ne fmt h' (Scan.above_of_torn fmt h hcut hne htorn)

end

end MeshWeaver.Lib.Json
