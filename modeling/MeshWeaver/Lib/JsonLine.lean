import MeshWeaver.Lib.Files
import MeshWeaver.Lib.JsonScan

/-!
# JSON on lines

A written value is printable ASCII, so it stays on one line, and an object is kept as it is when the line
is stripped. A line that begins with a part of an object's text and goes on with another object, or ends
there, is not read.
-/

namespace MeshWeaver.Lib.Json

open Files

def Printable (text : Text) : Prop := ∀ c ∈ text, 0x20 ≤ c.toNat ∧ c.toNat ≤ 0x7e

theorem Printable.nil : Printable [] := fun _ hc => absurd hc List.not_mem_nil

theorem Printable.cons {c : Char} {text : Text} (hc : 0x20 ≤ c.toNat ∧ c.toNat ≤ 0x7e)
    (h : Printable text) : Printable (c :: text) := List.forall_mem_cons.mpr ⟨hc, h⟩

theorem Printable.append {text text' : Text} (h : Printable text) (h' : Printable text') :
    Printable (text ++ text') := List.forall_mem_append.mpr ⟨h, h'⟩

theorem Printable.flatMap {α : Type} {f : α → Text} (h : ∀ a, Printable (f a)) (as : List α) :
    Printable (as.flatMap f) := by
  intro c hc
  obtain ⟨a, -, hc⟩ := List.mem_flatMap.mp hc
  exact h a c hc

theorem printable_digitChar : ∀ n < 16, 0x20 ≤ n.digitChar.toNat ∧ n.digitChar.toNat ≤ 0x7e := by decide

theorem printable_escapeUnit (n : Nat) : Printable (escapeUnit n) := by
  have hdigit (m : Nat) := printable_digitChar (m % 16) (Nat.mod_lt m (by decide))
  exact .cons (by decide) <| .cons (by decide) <| .cons (hdigit _) <| .cons (hdigit _) <|
    .cons (hdigit _) <| .cons (hdigit _) .nil

theorem printable_quoteChar (c : Char) : Printable (quoteChar c) := by
  unfold quoteChar
  cases hletter : escapeLetter? c with
  | some letter =>
    refine .cons (by decide) (.cons ?_ .nil)
    unfold escapeLetter? at hletter
    split_ifs at hletter
    all_goals
      cases hletter
      decide
  | none =>
    split_ifs with hc
    · exact .cons hc .nil
    · exact .flatMap printable_escapeUnit _

theorem printable_quote (s : String) : Printable (quote s) :=
  .cons (by decide) ((Printable.flatMap printable_quoteChar _).append (.cons (by decide) .nil))

theorem printable_numeric {text : Text} (h : ∀ c ∈ text, isNumeric c = true) : Printable text := by
  intro c hc
  have hnumeric := h c hc
  simp only [isNumeric, isE, Bool.or_eq_true, decide_eq_true_eq] at hnumeric
  rcases hnumeric with (((hdigit | rfl) | rfl) | rfl) | rfl | rfl
  · have hrange := toNat_digit hdigit
    omega
  all_goals decide

section
variable {F : Type} (fmt : FloatFormat F)

mutual

theorem printable_print : ∀ j : Json F, j.Proper fmt → Printable (print fmt j)
  | .null, _ => show Printable "null".toList by simp [Printable]
  | .bool true, _ => show Printable "true".toList by simp [Printable]
  | .bool false, _ => show Printable "false".toList by simp [Printable]
  | .int z, _ => printable_numeric (isNumeric_intText z)
  | .float _, h => printable_numeric (isNumeric_repr fmt h)
  | .str s, _ => printable_quote s
  | .arr [], _ | .obj [], _ => .cons (by decide) (.cons (by decide) .nil)
  | .arr (x :: xs), ⟨hx, hxs⟩ =>
    .cons (by decide) ((printable_print x hx).append (printable_printElements xs hxs))
  | .obj ((k, v) :: items), ⟨_, hv, hitems⟩ =>
    .cons (by decide) <| (printable_quote k).append <| .cons (by decide) <| .cons (by decide) <|
      (printable_print v hv).append (printable_printMembers items hitems)

theorem printable_printElements : ∀ xs : List (Json F), ProperElements fmt xs →
    Printable (printElements fmt xs)
  | [], _ => .cons (by decide) .nil
  | x :: xs, ⟨hx, hxs⟩ =>
    .cons (by decide) <| .cons (by decide) <|
      (printable_print x hx).append (printable_printElements xs hxs)

theorem printable_printMembers : ∀ items : List (String × Json F), ProperMembers fmt items →
    Printable (printMembers fmt items)
  | [], _ => .cons (by decide) .nil
  | (k, v) :: items, ⟨hv, hitems⟩ =>
    .cons (by decide) <| .cons (by decide) <| (printable_quote k).append <| .cons (by decide) <|
      .cons (by decide) <| (printable_print v hv).append (printable_printMembers items hitems)

end

theorem printMembers_eq_concat (items : List (String × Json F)) : ∃ cs, printMembers fmt items = cs ++ ['}'] := by
  induction items with
  | nil => exact ⟨[], rfl⟩
  | cons item items ih =>
    obtain ⟨cs, hcs⟩ := ih
    refine ⟨',' :: ' ' :: (quote item.1 ++ ':' :: ' ' :: (print fmt item.2 ++ cs)), ?_⟩
    rw [printMembers, hcs]
    simp

theorem print_object_braces (items : List (String × Json F)) :
    (∃ cs, print fmt (.obj items) = '{' :: cs) ∧ ∃ cs, print fmt (.obj items) = cs ++ ['}'] := by
  cases items with
  | nil => exact ⟨⟨_, rfl⟩, ['{'], rfl⟩
  | cons item items =>
    obtain ⟨cs, hcs⟩ := printMembers_eq_concat fmt items
    refine ⟨⟨_, rfl⟩, '{' :: (quote item.1 ++ ':' :: ' ' :: (print fmt item.2 ++ cs)), ?_⟩
    rw [print, hcs]
    simp

theorem isBreak_of_printable {text : Text} (h : Printable text) : ∀ c ∈ text, isBreak c = false := by
  intro c hc
  have hprintable := h c hc
  cases hbreak : isBreak c with
  | false => rfl
  | true =>
    simp only [isBreak, Bool.or_eq_true, decide_eq_true_eq] at hbreak
    rcases hbreak with rfl | rfl
    all_goals exact absurd hprintable (by decide)

variable {fmt} {items items' : List (String × Json F)} {torn : Text}

theorem isLine_print_object (h : (obj items).Proper fmt) : IsLine (print fmt (.obj items)) := by
  obtain ⟨⟨cs, hcs⟩, ds, hds⟩ := print_object_braces fmt items
  refine ⟨?_, by simp [hcs], isBreak_of_printable (printable_print fmt _ h)⟩
  rw [hcs] at hds ⊢
  exact strip_eq_self (by decide) (by decide) hds

variable (hcut : torn <+: print fmt (.obj items)) (hne : torn ≠ [])
include hcut hne

theorem torn_eq_cons : ∃ cs, torn = '{' :: cs := by
  obtain ⟨⟨cs, hcs⟩, -⟩ := print_object_braces fmt items
  obtain ⟨c, torn, rfl⟩ := List.exists_cons_of_ne_nil hne
  rw [hcs] at hcut
  obtain ⟨rfl, -⟩ := List.cons_prefix_cons.mp hcut
  exact ⟨torn, rfl⟩

theorem isLine_torn_append (h : (obj items).Proper fmt) (h' : (obj items').Proper fmt) :
    IsLine (torn ++ print fmt (.obj items')) := by
  obtain ⟨cs, rfl⟩ := torn_eq_cons hcut hne
  obtain ⟨-, ds, hds⟩ := print_object_braces fmt items'
  have hbreak : ∀ c ∈ '{' :: cs, isBreak c = false := fun c hc =>
    (isLine_print_object h).unbroken c (hcut.subset hc)
  refine ⟨?_, by simp, List.forall_mem_append.mpr ⟨hbreak, (isLine_print_object h').unbroken⟩⟩
  rw [hds, List.cons_append]
  exact strip_eq_self (by decide) (by decide) (show _ = ('{' :: (cs ++ ds)) ++ ['}'] by simp)

theorem strip_torn : strip torn ≠ [] ∧ strip torn <+: torn := by
  obtain ⟨cs, rfl⟩ := torn_eq_cons hcut hne
  exact ⟨strip_ne_nil (by decide) cs, strip_prefix (by decide) cs⟩

theorem strip_torn_ne (htorn : torn ≠ print fmt (.obj items)) : strip torn ≠ print fmt (.obj items) := by
  intro heq
  have hle := (strip_torn hcut hne).2.length_le
  rw [heq] at hle
  exact htorn (hcut.eq_of_length_le hle)

end

end MeshWeaver.Lib.Json
