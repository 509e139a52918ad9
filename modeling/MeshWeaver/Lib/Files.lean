import Mathlib.Data.List.DropRight
import Mathlib.Data.List.Sort
import MeshWeaver.Lib.Json

/-!
# Numbered files of lines

Files that are named by a number, padded with zeros, and hold one record on each line. Names of the same
width sort as their numbers do. A reader skips blank lines and stops at the first line that it cannot
read, so what stands behind such a line is lost.
-/

namespace MeshWeaver.Lib.Files

/-! ### Padded numbers -/

/-- `f"{n:0{width}d}"` -/
def padded (width n : Nat) : Text := (Nat.toDigits 10 n).leftpad width '0'

variable (width : Nat) {c : Char}

theorem isDigit_padded (n : Nat) : ∀ c ∈ padded width n, c.isDigit = true := by
  intro c hc
  rcases List.mem_append.mp hc with hzero | hdigit
  · rw [List.eq_of_mem_replicate hzero]
    rfl
  · exact Nat.isDigit_of_mem_toDigits (by decide) (by decide) hdigit

theorem padded_ne_nil (n : Nat) : padded width n ≠ [] := fun h =>
  Nat.toDigits_ne_nil (List.append_eq_nil_iff.mp h).2

theorem ofDigitChars_padded (n : Nat) : Nat.ofDigitChars 10 (padded width n) 0 = n := by
  rw [padded, List.leftpad, Nat.ofDigitChars_append, Nat.ofDigitChars_replicate_zero, Nat.mul_zero,
    Nat.ofDigitChars_ten_toDigits]

theorem padded_injective : Function.Injective (padded width) := fun m n h => by
  rw [← ofDigitChars_padded width m, h, ofDigitChars_padded]

theorem padded_append_inj {width m n : Nat} (hc : c.isDigit = false) {rest rest' : Text}
    (h : padded width m ++ c :: rest = padded width n ++ c :: rest') : m = n ∧ rest = rest' := by
  have hdigits (k : Nat) (rest : Text) :
      (padded width k ++ c :: rest).takeWhile Char.isDigit = padded width k := by
    rw [List.takeWhile_append_of_pos (isDigit_padded width k), List.takeWhile_cons_of_neg (by simp [hc]),
      List.append_nil]
  have heq : padded width m = padded width n := by rw [← hdigits m rest, h, hdigits]
  rw [heq] at h
  exact ⟨padded_injective width heq, (List.cons.inj (List.append_cancel_left h)).2⟩

theorem length_padded {width n : Nat} (hwidth : 0 < width) (hn : n < 10 ^ width) :
    (padded width n).length = width := by
  rw [padded, List.length_leftpad, Nat.max_eq_left]
  exact (Nat.length_toDigits_le_iff (by decide) hwidth).mpr hn

theorem ofDigitChars_cons (c : Char) (cs : Text) :
    Nat.ofDigitChars 10 (c :: cs) 0 = 10 ^ cs.length * (c.toNat - 48) + Nat.ofDigitChars 10 cs 0 := by
  rw [Nat.ofDigitChars_cons, Nat.mul_zero, Nat.zero_add, Nat.ofDigitChars_eq_ofDigitChars_zero]
  rfl

theorem isDigit_iff (c : Char) : c.isDigit = true ↔ 48 ≤ c.toNat ∧ c.toNat ≤ 57 := by
  simp only [Char.isDigit, Bool.and_eq_true, decide_eq_true_eq]
  rfl

theorem toNat_digit (hc : c.isDigit = true) : 48 ≤ c.toNat ∧ c.toNat ≤ 57 := (isDigit_iff c).mp hc

theorem ofDigitChars_lt {cs : Text} (hcs : ∀ c ∈ cs, c.isDigit = true) :
    Nat.ofDigitChars 10 cs 0 < 10 ^ cs.length := by
  induction cs with
  | nil => simp
  | cons c cs ih =>
    obtain ⟨-, hc⟩ := toNat_digit (hcs c List.mem_cons_self)
    have htail := ih fun c hc => hcs c (List.mem_cons_of_mem _ hc)
    have hhead : 10 ^ cs.length * (c.toNat - 48) ≤ 10 ^ cs.length * 9 :=
      Nat.mul_le_mul_left _ (by omega)
    rw [ofDigitChars_cons, List.length_cons, Nat.pow_succ]
    omega

theorem precedes_append_left_eq (cs as bs : Text) : Text.precedes (cs ++ as) (cs ++ bs) = Text.precedes as bs := by
  induction cs with
  | nil => rfl
  | cons c cs ih => simp [Text.precedes, ih]

theorem precedes_of_ofDigitChars_lt {cs ds : Text} (hlength : cs.length = ds.length)
    (hcs : ∀ c ∈ cs, c.isDigit = true) (hds : ∀ d ∈ ds, d.isDigit = true)
    (hlt : Nat.ofDigitChars 10 cs 0 < Nat.ofDigitChars 10 ds 0) (tail tail' : Text) :
    Text.precedes (cs ++ tail) (ds ++ tail') = true := by
  induction cs generalizing ds with
  | nil =>
    rw [List.length_eq_zero_iff.mp hlength.symm] at hlt
    exact absurd hlt (lt_irrefl _)
  | cons c cs ih =>
    obtain ⟨d, ds, rfl⟩ := List.exists_cons_of_length_eq_add_one (hlength.symm : ds.length = cs.length + 1)
    have hlength : cs.length = ds.length := Nat.succ.inj hlength
    obtain ⟨hd, -⟩ := toNat_digit (hds d List.mem_cons_self)
    have hcs := fun c hc => hcs c (List.mem_cons_of_mem _ hc)
    have hds := fun d hd => hds d (List.mem_cons_of_mem _ hd)
    rw [ofDigitChars_cons, ofDigitChars_cons, hlength] at hlt
    rw [List.cons_append, List.cons_append, Text.precedes, Bool.or_eq_true, Bool.and_eq_true,
      decide_eq_true_eq, decide_eq_true_eq]
    rcases Nat.lt_trichotomy c.toNat d.toNat with hlt' | heq | hgt
    · exact Or.inl hlt'
    · refine Or.inr ⟨heq, ih hlength hcs hds ?_⟩
      rw [heq] at hlt
      omega
    · -- a greater first digit outweighs the others
      have hle : 10 ^ ds.length * (d.toNat - 48 + 1) ≤ 10 ^ ds.length * (c.toNat - 48) :=
        Nat.mul_le_mul_left _ (by omega)
      have hbound := ofDigitChars_lt hds
      rw [Nat.mul_add, Nat.mul_one] at hle
      omega

theorem padded_precedes {width m n : Nat} (hwidth : 0 < width) (hmn : m < n) (hn : n < 10 ^ width)
    (tail tail' : Text) : Text.precedes (padded width m ++ tail) (padded width n ++ tail') = true := by
  refine precedes_of_ofDigitChars_lt ?_ (isDigit_padded _ _) (isDigit_padded _ _) ?_ tail tail'
  · rw [length_padded hwidth (hmn.trans hn), length_padded hwidth hn]
  · rwa [ofDigitChars_padded, ofDigitChars_padded]

/-! ### Numerals of different widths -/

section
variable {cs ds : Text} (hlength : cs.length = ds.length) (hcs : ∀ c ∈ cs, c.isDigit = true)
  (hds : ∀ d ∈ ds, d.isDigit = true)
include hlength hcs hds

theorem eq_of_ofDigitChars_eq (heq : Nat.ofDigitChars 10 cs 0 = Nat.ofDigitChars 10 ds 0) : cs = ds := by
  induction cs generalizing ds with
  | nil => exact (List.length_eq_zero_iff.mp hlength.symm).symm
  | cons c cs ih =>
    obtain ⟨d, ds, rfl⟩ := List.exists_cons_of_length_eq_add_one (hlength.symm : ds.length = cs.length + 1)
    have hlength : cs.length = ds.length := Nat.succ.inj hlength
    obtain ⟨hc, -⟩ := toNat_digit (hcs c List.mem_cons_self)
    obtain ⟨hd, -⟩ := toNat_digit (hds d List.mem_cons_self)
    have hcs := fun c hc => hcs c (List.mem_cons_of_mem _ hc)
    have hds := fun d hd => hds d (List.mem_cons_of_mem _ hd)
    have hbound := ofDigitChars_lt hcs
    have hbound' := ofDigitChars_lt hds
    rw [ofDigitChars_cons, ofDigitChars_cons, hlength] at heq
    rw [hlength] at hbound
    -- the first digits are the quotients by the power of ten
    have hdigit : c.toNat - 48 = d.toNat - 48 := by
      have hquotient := congrArg (· / 10 ^ ds.length) heq
      simp only [Nat.mul_add_div (Nat.pos_of_ne_zero (by positivity : 10 ^ ds.length ≠ 0)),
        Nat.div_eq_of_lt hbound, Nat.div_eq_of_lt hbound', Nat.add_zero] at hquotient
      exact hquotient
    have hchar : c = d := Char.toNat_inj.mp (by omega)
    rw [hdigit] at heq
    rw [hchar, ih hlength hcs hds (Nat.add_left_cancel heq)]

theorem precedes_digits_iff (hne : Nat.ofDigitChars 10 cs 0 ≠ Nat.ofDigitChars 10 ds 0) (tail tail' : Text) :
    Text.precedes (cs ++ tail) (ds ++ tail') = true ↔ Nat.ofDigitChars 10 cs 0 < Nat.ofDigitChars 10 ds 0 := by
  refine ⟨fun hprecedes => ?_, fun hlt => precedes_of_ofDigitChars_lt hlength hcs hds hlt tail tail'⟩
  by_contra hge
  have hback := precedes_of_ofDigitChars_lt hlength.symm hds hcs (by omega) tail' tail
  have heq := (List.append_inj (Text.precedes_antisymm hprecedes hback) hlength).1
  exact hne (heq ▸ rfl)

end

theorem length_padded_mono {m n : Nat} (h : m ≤ n) : (padded width m).length ≤ (padded width n).length := by
  have hpos : 0 < (Nat.toDigits 10 n).length := List.length_pos_of_ne_nil Nat.toDigits_ne_nil
  have hn := (Nat.length_toDigits_le_iff (by decide) hpos).mp (Nat.le_refl (Nat.toDigits 10 n).length)
  have hm := (Nat.length_toDigits_le_iff (b := 10) (by decide) hpos).mpr (Nat.lt_of_le_of_lt h hn)
  rw [padded, padded, List.length_leftpad, List.length_leftpad]
  omega

theorem ofDigitChars_take (n k : Nat) :
    Nat.ofDigitChars 10 ((padded width n).take k) 0 = n / 10 ^ ((padded width n).length - k) := by
  have hdigits := isDigit_padded width n
  have hvalue := ofDigitChars_padded width n
  have hdrop : ((padded width n).drop k).length = (padded width n).length - k := List.length_drop
  have hbound : Nat.ofDigitChars 10 ((padded width n).drop k) 0 < 10 ^ ((padded width n).drop k).length :=
    ofDigitChars_lt fun c hc => hdigits c (List.mem_of_mem_drop hc)
  rw [← List.take_append_drop k (padded width n), Nat.ofDigitChars_append,
    Nat.ofDigitChars_eq_ofDigitChars_zero] at hvalue
  have hquotient := Nat.mul_add_div (show 0 < 10 ^ ((padded width n).drop k).length by positivity)
    (Nat.ofDigitChars 10 ((padded width n).take k) 0) (Nat.ofDigitChars 10 ((padded width n).drop k) 0)
  rw [hvalue, Nat.div_eq_of_lt hbound, Nat.add_zero, hdrop] at hquotient
  exact hquotient.symm

theorem precedes_digit_iff {d c : Char} (hd : d.isDigit = true) (hc : c.isDigit = false) (ds rest : Text) :
    Text.precedes (d :: ds) (c :: rest) = true ↔ 57 < c.toNat := by
  have hnot : ¬ (48 ≤ c.toNat ∧ c.toNat ≤ 57) := by
    rw [← isDigit_iff, hc]
    exact Bool.false_ne_true
  obtain ⟨hlow, hhigh⟩ := toNat_digit hd
  rw [Text.precedes, Bool.or_eq_true, Bool.and_eq_true, decide_eq_true_eq, decide_eq_true_eq]
  constructor
  · omega
  · intro hsign
    exact Or.inl (by omega)

/-- **How numerals sort that have the same sign behind them.** The greater number comes first when it is longer,
and its first digits are less than the other number, or equal to it and the sign sorts behind the digits. -/
theorem precedes_padded_iff {width m n : Nat} (hmn : m < n) (hc : c.isDigit = false) (rest rest' : Text) :
    Text.precedes (padded width n ++ c :: rest') (padded width m ++ c :: rest) = true ↔
      (padded width m).length < (padded width n).length ∧
        (n / 10 ^ ((padded width n).length - (padded width m).length) < m ∨
          n / 10 ^ ((padded width n).length - (padded width m).length) = m ∧ 57 < c.toNat) := by
  have hm := ofDigitChars_padded width m
  have hle := length_padded_mono width (Nat.le_of_lt hmn)
  have htake := ofDigitChars_take width n (padded width m).length
  have hlength : ((padded width n).take (padded width m).length).length = (padded width m).length :=
    List.length_take_of_le hle
  have hdigits : ∀ c ∈ (padded width n).take (padded width m).length, c.isDigit = true := fun c hc =>
    isDigit_padded width n c (List.mem_of_mem_take hc)
  have hsplit : padded width n ++ c :: rest' = (padded width n).take (padded width m).length ++
      ((padded width n).drop (padded width m).length ++ c :: rest') := by
    rw [← List.append_assoc, List.take_append_drop]
  by_cases hfirst : n / 10 ^ ((padded width n).length - (padded width m).length) = m
  · -- the shorter numeral is the start of the longer one
    have hstart := eq_of_ofDigitChars_eq hlength hdigits (isDigit_padded width m) (by rw [htake, hm, hfirst])
    have hlonger : (padded width m).length < (padded width n).length := by
      refine Nat.lt_of_le_of_ne hle fun heq => ?_
      rw [heq, Nat.sub_self, Nat.pow_zero, Nat.div_one] at hfirst
      omega
    obtain ⟨d, ds, hdrop⟩ := List.exists_cons_of_ne_nil (List.ne_nil_of_length_pos
      (show 0 < ((padded width n).drop (padded width m).length).length by rw [List.length_drop]; omega))
    have hd : d.isDigit = true := isDigit_padded width n d (List.mem_of_mem_drop (hdrop ▸ List.mem_cons_self))
    rw [hsplit, hstart, precedes_append_left_eq, hdrop, List.cons_append, precedes_digit_iff hd hc]
    constructor
    · exact fun hsign => ⟨hlonger, Or.inr ⟨hfirst, hsign⟩⟩
    · rintro ⟨-, hlt | ⟨-, hsign⟩⟩
      · omega
      · exact hsign
  · rw [hsplit, precedes_digits_iff hlength hdigits (isDigit_padded width m) (by rwa [htake, hm]), htake, hm]
    constructor
    · intro hlt
      refine ⟨Nat.lt_of_le_of_ne hle fun heq => ?_, Or.inl hlt⟩
      rw [heq, Nat.sub_self, Nat.pow_zero, Nat.div_one] at hlt
      omega
    · exact fun h => h.2.resolve_right fun heq => hfirst heq.1

theorem take_drop_middle (start middle tail : Text) {m n : Nat} (hm : start.length = m) (hn : m + tail.length = n) :
    ((start ++ middle ++ tail).drop m).take ((start ++ middle ++ tail).length - n) = middle := by
  have hlength : (start ++ middle ++ tail).length - n = middle.length := by
    simp only [List.length_append]
    omega
  rw [hlength, List.append_assoc, List.drop_left' hm, List.take_left' rfl]

/-! ### Selections -/

theorem filter_prefix_iff {α : Type} {marks : List (α × Bool)} (h : (marks.map Prod.fst).Nodup) :
    (marks.filter Prod.snd).map Prod.fst <+: marks.map Prod.fst ↔
      marks.Pairwise fun a b => b.2 = true → a.2 = true := by
  induction marks with
  | nil => simp
  | cons mark marks ih =>
    obtain ⟨x, selected⟩ := mark
    rw [List.map_cons, List.nodup_cons] at h
    rw [List.pairwise_cons, List.map_cons]
    cases selected with
    | true =>
      rw [List.filter_cons_of_pos rfl, List.map_cons, List.cons_prefix_cons, ih h.2]
      simp
    | false =>
      rw [List.filter_cons_of_neg (by simp)]
      have hfirst : (∀ b ∈ marks, b.2 = true → (x, false).2 = true) ↔ marks.filter Prod.snd = [] := by
        simp [List.filter_eq_nil_iff]
      rw [hfirst]
      constructor
      · intro hcut
        cases hfilter : marks.filter Prod.snd with
        | nil =>
          refine ⟨rfl, ?_⟩
          rw [List.filter_eq_nil_iff] at hfilter
          exact List.pairwise_of_forall_mem_list fun a _ b hb hselected => absurd hselected (hfilter b hb)
        | cons mark rest =>
          -- the first one that is selected would have to be the one that is left out
          rw [hfilter, List.map_cons, List.cons_prefix_cons] at hcut
          have hmem : mark ∈ marks := List.mem_of_mem_filter (hfilter ▸ List.mem_cons_self)
          exact absurd (hcut.1 ▸ List.mem_map_of_mem hmem) h.1
      · rintro ⟨hnone, -⟩
        rw [hnone]
        exact List.nil_prefix

/-! ### Lines -/

def isSpace (c : Char) : Bool :=
  let n := c.toNat
  (9 ≤ n && n ≤ 13) || (28 ≤ n && n ≤ 32) || n = 0x85 || n = 0xa0 || n = 0x1680 ||
    (0x2000 ≤ n && n ≤ 0x200a) || n = 0x2028 || n = 0x2029 || n = 0x202f || n = 0x205f || n = 0x3000

def strip (text : Text) : Text := (text.dropWhile isSpace).rdropWhile isSpace

/-- A line ends at a line feed or a carriage return; where both stand, a blank line is between them. -/
def isBreak (c : Char) : Bool := c = '\n' || c = '\r'

section
variable {α : Type} {read : Text → Option α} {line : Text} {r : α}

/-- Blank lines are skipped, and reading stops at the first line that is not read. -/
def readLines (read : Text → Option α) : List Text → List α
  | [] => []
  | line :: rest =>
    if strip line = [] then readLines read rest
    else
      match read (strip line) with
      | some r => r :: readLines read rest
      | none => []

def records (read : Text → Option α) (text : Text) : List α := readLines read (text.splitOnP isBreak)

def content (write : α → Text) (rs : List α) : Text := rs.flatMap fun r => write r ++ ['\n']

theorem content_append (write : α → Text) (rs rs' : List α) :
    content write (rs ++ rs') = content write rs ++ content write rs' := List.flatMap_append

theorem content_cons (write : α → Text) (r : α) (rs : List α) :
    content write (r :: rs) = write r ++ '\n' :: content write rs := by
  rw [content, List.flatMap_cons, List.append_assoc]
  rfl

/-- A text that is stored on a line as it is. -/
structure IsLine (text : Text) : Prop where
  strip : strip text = text
  ne_nil : text ≠ []
  unbroken : ∀ c ∈ text, isBreak c = false

theorem records_nil (read : Text → Option α) : records read [] = [] := rfl

theorem records_cons (hline : IsLine line) (hread : read line = some r) (rest : Text) :
    records read (line ++ '\n' :: rest) = r :: records read rest := by
  rw [records, List.splitOnP_append_cons_of_forall_mem hline.unbroken '\n' rfl, readLines, hline.strip,
    if_neg hline.ne_nil, hread]
  rfl

theorem records_content {write : α → Text} {rs : List α}
    (hrs : ∀ r ∈ rs, IsLine (write r) ∧ read (write r) = some r) (rest : Text) :
    records read (content write rs ++ rest) = rs ++ records read rest := by
  induction rs with
  | nil => rfl
  | cons r rs ih =>
    obtain ⟨hline, hread⟩ := hrs r List.mem_cons_self
    rw [content_cons, List.append_assoc, List.cons_append, records_cons hline hread,
      ih fun r hr => hrs r (List.mem_cons_of_mem _ hr)]
    rfl

theorem records_blank (hblank : strip line = []) (hbreak : ∀ c ∈ line, isBreak c = false) (rest : Text) :
    records read (line ++ '\n' :: rest) = records read rest := by
  rw [records, List.splitOnP_append_cons_of_forall_mem hbreak '\n' rfl, readLines, if_pos hblank]
  rfl

theorem records_unread (hblank : strip line ≠ []) (hbreak : ∀ c ∈ line, isBreak c = false)
    (hread : read (strip line) = none) {rest : Text} (hrest : rest = [] ∨ ∃ rest', rest = '\n' :: rest') :
    records read (line ++ rest) = [] := by
  obtain ⟨lines, hlines⟩ : ∃ lines, (line ++ rest).splitOnP isBreak = line :: lines := by
    rcases hrest with rfl | ⟨rest, rfl⟩
    · exact ⟨[], by rw [List.append_nil, List.splitOnP_eq_singleton hbreak]⟩
    · exact ⟨_, List.splitOnP_append_cons_of_forall_mem hbreak '\n' rfl rest⟩
  rw [records, hlines, readLines, if_neg hblank, hread]

end

/-! ### Stripping -/

theorem strip_cons (hc : isSpace c = false) (cs : Text) : strip (c :: cs) = (c :: cs).rdropWhile isSpace := by
  rw [strip, List.dropWhile_cons_of_neg (by simp [hc])]

theorem strip_prefix (hc : isSpace c = false) (cs : Text) : strip (c :: cs) <+: c :: cs := by
  rw [strip_cons hc]
  exact List.rdropWhile_prefix _ _

theorem strip_ne_nil (hc : isSpace c = false) (cs : Text) : strip (c :: cs) ≠ [] := by
  rw [strip_cons hc, Ne, List.rdropWhile_eq_nil_iff]
  intro h
  exact absurd (h c List.mem_cons_self) (by simp [hc])

theorem strip_eq_self {c d : Char} {cs ds : Text} (hc : isSpace c = false) (hd : isSpace d = false)
    (h : c :: cs = ds ++ [d]) : strip (c :: cs) = c :: cs := by
  rw [strip_cons hc, h, List.rdropWhile_concat_neg _ _ _ (by simp [hd])]

theorem IsLine.strip_newline {text : Text} (h : IsLine text) : Files.strip (text ++ ['\n']) = text := by
  obtain ⟨c, cs, rfl⟩ := List.exists_cons_of_ne_nil h.ne_nil
  have hc : isSpace c = false := by
    by_contra hspace
    have hstrip := h.strip
    rw [Files.strip, List.dropWhile_cons_of_pos (Bool.of_not_eq_false hspace)] at hstrip
    have hlength := (List.rdropWhile_prefix isSpace (cs.dropWhile isSpace)).length_le
    have hlength' := (List.dropWhile_suffix isSpace (l := cs)).length_le
    rw [hstrip, List.length_cons] at hlength
    omega
  have hstrip := h.strip
  rw [strip_cons hc] at hstrip
  rw [List.cons_append, strip_cons hc, ← List.cons_append, List.rdropWhile_concat_pos _ _ _ (by decide), hstrip]

/-! ### A log in numbered files -/

def appendLine (full : Text → Bool) (line : Text) : List (Nat × Text) → List (Nat × Text)
  | [] => []
  | [(id, text)] => if full text then [(id, text), (id + 1, line)] else [(id, text ++ line)]
  | file :: files => file :: appendLine full line files

theorem appendLine_append (full : Text → Bool) (line : Text) (files : List (Nat × Text))
    {files' : List (Nat × Text)} (h : files' ≠ []) :
    appendLine full line (files ++ files') = files ++ appendLine full line files' := by
  induction files with
  | nil => rfl
  | cons file files ih =>
    obtain ⟨next, rest, hrest⟩ := List.exists_cons_of_ne_nil (List.append_ne_nil_of_right_ne_nil files h)
    rw [List.cons_append, List.cons_append, ← ih, hrest]
    rfl

section
variable {α : Type} (read : Text → Option α)

def readAll (files : List (Nat × Text)) : List α := files.flatMap fun file => records read file.2

theorem readAll_append (files files' : List (Nat × Text)) :
    readAll read (files ++ files') = readAll read files ++ readAll read files' := List.flatMap_append

theorem readAll_singleton (file : Nat × Text) : readAll read [file] = records read file.2 :=
  List.flatMap_singleton _ _

/-- What is read of a text and of what comes behind it is independent. -/
def Complete (text : Text) : Prop :=
  ∀ rest, records read (text ++ rest) = records read text ++ records read rest

variable {read} {text line : Text} {r : α} {files : List (Nat × Text)} {file : Nat × Text}

theorem Complete.nil : Complete read [] := fun _ => rfl

theorem Complete.of_line (hline : IsLine line) (hread : read line = some r) : Complete read (line ++ ['\n']) := by
  intro rest
  rw [List.append_assoc, List.singleton_append, records_cons hline hread, records_cons hline hread]
  rfl

theorem Complete.append {text' : Text} (h : Complete read text) (h' : Complete read text') :
    Complete read (text ++ text') := by
  intro rest
  rw [List.append_assoc, h, h', h text', List.append_assoc]

theorem Complete.content {write : α → Text} {rs : List α}
    (hrs : ∀ r ∈ rs, IsLine (write r) ∧ read (write r) = some r) : Complete read (content write rs) := by
  intro rest
  have hnil := records_content hrs []
  rw [List.append_nil, records_nil, List.append_nil] at hnil
  rw [records_content hrs, hnil]

theorem readAll_appendLine (hlast : files.getLast? = some file) (h : Complete read file.2) (hline : IsLine line)
    (hread : read line = some r) (full : Text → Bool) :
    readAll read (appendLine full (line ++ ['\n']) files) = readAll read files ++ [r] := by
  have hrecords : records read (line ++ ['\n']) = [r] := records_cons hline hread []
  obtain ⟨files, rfl⟩ := List.getLast?_eq_some_iff.mp hlast
  rw [appendLine_append full _ files (List.cons_ne_nil _ _), readAll_append, readAll_append,
    List.append_assoc, readAll_singleton, appendLine]
  split_ifs
  · rw [← hrecords]
    simp [readAll]
  · rw [readAll_singleton, h, hrecords]

theorem complete_appendLine (hlast : files.getLast? = some file) (h : Complete read file.2) (hline : IsLine line)
    (hread : read line = some r) (full : Text → Bool) :
    ∀ file' ∈ (appendLine full (line ++ ['\n']) files).getLast?, Complete read file'.2 := by
  have hcomplete := Complete.of_line hline hread
  obtain ⟨files, rfl⟩ := List.getLast?_eq_some_iff.mp hlast
  rw [appendLine_append full _ files (List.cons_ne_nil _ _), appendLine]
  intro file' hfile'
  split_ifs at hfile'
  · rw [List.append_cons, List.getLast?_concat] at hfile'
    cases hfile'
    exact hcomplete
  · rw [List.getLast?_concat] at hfile'
    cases hfile'
    exact h.append hcomplete

/-- Nothing behind the text is read. -/
def Ended (read : Text → Option α) (text : Text) : Prop :=
  ∀ rest, records read (text ++ rest) = records read text

theorem Ended.append (h : Ended read text) (more : Text) : Ended read (text ++ more) := by
  intro rest
  rw [List.append_assoc, h, h more]

theorem records_line (hline : IsLine line) (hread : read line = some r) : records read line = [r] := by
  rw [records, List.splitOnP_eq_singleton hline.unbroken, readLines, hline.strip, if_neg hline.ne_nil, hread]
  rfl

section
variable (full : Text → Bool) (write : α → Text)

def appendLines (files : List (Nat × Text)) (rs : List α) : List (Nat × Text) :=
  rs.foldl (fun files r => appendLine full (write r ++ ['\n']) files) files

theorem appendLine_ne_nil (h : files ≠ []) (line : Text) : appendLine full line files ≠ [] := by
  obtain ⟨files, file, rfl⟩ := List.eq_nil_or_concat' files |>.resolve_left h
  rw [appendLine_append full line files (List.cons_ne_nil _ _), appendLine]
  split_ifs
  all_goals simp

theorem appendLines_append (files : List (Nat × Text)) {files' : List (Nat × Text)} (h : files' ≠ []) (rs : List α) :
    appendLines full write (files ++ files') rs = files ++ appendLines full write files' rs := by
  induction rs generalizing files' with
  | nil => rfl
  | cons r rs ih =>
    rw [appendLines, List.foldl_cons, appendLine_append full _ files h]
    exact ih (appendLine_ne_nil full h _)

variable {write} {rs : List α} (hrs : ∀ r ∈ rs, IsLine (write r) ∧ read (write r) = some r)
include hrs

theorem readAll_appendLines (hlast : files.getLast? = some file) (h : Complete read file.2) :
    readAll read (appendLines full write files rs) = readAll read files ++ rs := by
  induction rs generalizing files file with
  | nil => rw [List.append_nil]; rfl
  | cons r rs ih =>
    obtain ⟨hline, hread⟩ := hrs r List.mem_cons_self
    have hne : files ≠ [] := by
      rintro rfl
      cases hlast
    obtain ⟨init, file', hconcat⟩ := (List.eq_nil_or_concat' _).resolve_left
      (appendLine_ne_nil full hne (write r ++ ['\n']))
    have hlast' : (appendLine full (write r ++ ['\n']) files).getLast? = some file' := by
      rw [hconcat, List.getLast?_concat]
    have hcomplete := complete_appendLine hlast h hline hread full file' hlast'
    refine (ih (fun r hr => hrs r (List.mem_cons_of_mem _ hr)) hlast' hcomplete).trans ?_
    rw [readAll_appendLine hlast h hline hread, List.append_assoc]
    rfl

theorem length_readAll_appendLines (id : Nat) (h : Ended read text) :
    (readAll read (appendLines full write [(id, text)] rs)).length ≤ (records read text).length + rs.length := by
  induction rs generalizing text with
  | nil =>
    rw [appendLines, List.foldl_nil, readAll_singleton]
    exact Nat.le_add_right _ _
  | cons r rs ih =>
    obtain ⟨hline, hread⟩ := hrs r List.mem_cons_self
    have hrest := fun r hr => hrs r (List.mem_cons_of_mem _ hr)
    rw [appendLines, List.foldl_cons, appendLine]
    split_ifs with hfull
    · -- the file is left, and all lines behind it are read
      have hread' : readAll read (appendLines full write [(id, text), (id + 1, write r ++ ['\n'])] rs) = _ :=
        readAll_appendLines full hrest rfl (Complete.of_line hline hread)
      rw [appendLines] at hread'
      rw [hread', ← List.singleton_append, readAll_append, readAll_singleton, readAll_singleton,
        records_cons hline hread []]
      simp [records_nil]
    · have hle := ih hrest (h.append (write r ++ ['\n']))
      rw [h] at hle
      rw [List.length_cons]
      exact hle.trans (by omega)

end

end

end MeshWeaver.Lib.Files
