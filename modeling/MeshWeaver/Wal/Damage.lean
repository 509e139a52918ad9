import MeshWeaver.Wal.Runs

/-!
# Damaged logs

Lines of the log are damaged so that they are not read. A reader stops at such a line, but only within its
segment, and it skips a line that has become blank: the replayed records are a beginning of the history only
if nothing that is reached in this way comes behind a damaged line.
-/

namespace MeshWeaver

open Lib
open Lib.Files (records readAll strip isBreak IsLine)
open Lib.Json (FloatFormat)

/-- A line of the log: the record that was appended, and the text that is there instead, if any. -/
structure WALLine where
  record : WALRecord
  damage : Option Text

namespace WALLine

def intact (line : WALLine) : Bool := line.damage.isNone

/-- A reader stops at the line: it is damaged, and not blank. -/
def stops (line : WALLine) : Bool :=
  match line.damage with
  | none => false
  | some damage => strip damage ≠ []

variable (fmt : FloatFormat Rat)

def text (line : WALLine) : Text := line.damage.getD (line.record.text fmt)

/-- The record was appended, and the damage is such that the line is not read. -/
structure Valid (line : WALLine) : Prop where
  record : line.record.Sealed fmt
  unbroken : ∀ damage ∈ line.damage, ∀ c ∈ damage, isBreak c = false
  unread : ∀ damage ∈ line.damage, ∀ now, WALRecord.read fmt true now (strip damage) = none

/-- The records of a segment, with a mark at those that are read; `stopped` behind the line that ends the
reading. -/
def marks : Bool → List WALLine → List (WALRecord × Bool)
  | _, [] => []
  | stopped, line :: lines => (line.record, !stopped && line.intact) :: marks (stopped || line.stops) lines

theorem map_fst_marks (stopped : Bool) (lines : List WALLine) :
    (marks stopped lines).map Prod.fst = lines.map record := by
  induction lines generalizing stopped with
  | nil => rfl
  | cons line lines ih => rw [marks, List.map_cons, List.map_cons, ih]

theorem filter_marks_true (lines : List WALLine) : (marks true lines).filter Prod.snd = [] := by
  induction lines with
  | nil => rfl
  | cons line lines ih =>
    exact ih

variable {fmt} {line : WALLine}

theorem records_lines {lines : List WALLine} (h : ∀ line ∈ lines, line.Valid fmt) (now : Rat) :
    records (WALRecord.read fmt true now) (Files.content (text fmt) lines) =
      ((marks false lines).filter Prod.snd).map Prod.fst := by
  induction lines with
  | nil => rfl
  | cons line lines ih =>
    have hline := h line List.mem_cons_self
    have hrest := ih fun line hline => h line (List.mem_cons_of_mem _ hline)
    obtain ⟨record, damage⟩ := line
    rw [Files.content_cons]
    cases damage with
    | none =>
      exact (Files.records_cons hline.record.isLine_text (hline.record.read_text true now) _).trans
        (congrArg _ hrest)
    | some damage =>
      have hbreak := hline.unbroken damage rfl
      rw [marks, List.filter_cons_of_neg (by simp [intact])]
      by_cases hblank : strip damage = []
      · have hstops : stops ⟨record, some damage⟩ = false := by simp [stops, hblank]
        rw [hstops]
        exact (Files.records_blank hblank hbreak _).trans hrest
      · have hstops : stops ⟨record, some damage⟩ = true := by simp [stops, hblank]
        rw [hstops, Bool.false_or, filter_marks_true]
        exact Files.records_unread hblank hbreak (hline.unread damage rfl now) (Or.inr ⟨_, rfl⟩)

/-! ### Holes -/

/-- A reader gets to the line, over those before it, and reads it. -/
structure Reached (before : List WALLine) (line : WALLine) : Prop where
  intact : line.intact = true
  passed : ∀ other ∈ before, other.stops = false

/-- Something is read of the segment. -/
def Reads (lines : List WALLine) : Prop :=
  ∃ before line after, lines = before ++ line :: after ∧ Reached before line

/-- Within the segment nothing is read behind a damaged line. -/
def Unbroken (lines : List WALLine) : Prop :=
  ∀ before line after, lines = before ++ line :: after → Reached before line →
    ∀ other ∈ before, other.intact = true

theorem stops_of_intact (h : line.intact = true) : line.stops = false := by
  obtain ⟨record, damage⟩ := line
  cases damage with
  | none => rfl
  | some damage => cases h

theorem Reached.cons {other : WALLine} {before : List WALLine} (hother : other.stops = false)
    (h : Reached before line) : Reached (other :: before) line :=
  ⟨h.intact, List.forall_mem_cons.mpr ⟨hother, h.passed⟩⟩

theorem Reached.of_cons {other : WALLine} {before : List WALLine} (h : Reached (other :: before) line) :
    other.stops = false ∧ Reached before line :=
  ⟨h.passed other List.mem_cons_self, h.intact, fun line hline => h.passed line (List.mem_cons_of_mem _ hline)⟩

variable (lines : List WALLine)

theorem reads_cons : Reads (line :: lines) ↔ line.intact = true ∨ line.stops = false ∧ Reads lines := by
  constructor
  · rintro ⟨before, reached, after, heq, hreached⟩
    cases before with
    | nil =>
      cases heq
      exact Or.inl hreached.intact
    | cons other before =>
      cases heq
      obtain ⟨hother, hreached⟩ := hreached.of_cons
      exact Or.inr ⟨hother, before, reached, after, rfl, hreached⟩
  · rintro (hintact | ⟨hstops, before, reached, after, rfl, hreached⟩)
    · exact ⟨[], line, lines, rfl, hintact, fun _ hother => absurd hother List.not_mem_nil⟩
    · exact ⟨line :: before, reached, after, rfl, hreached.cons hstops⟩

theorem unbroken_cons_of_intact (hintact : line.intact = true) :
    Unbroken (line :: lines) ↔ Unbroken lines := by
  constructor
  · rintro h before reached after rfl hreached other hother
    exact h (line :: before) reached after rfl (hreached.cons (stops_of_intact hintact)) other
      (List.mem_cons_of_mem _ hother)
  · intro h before reached after heq hreached
    cases before with
    | nil => exact fun _ hother => absurd hother List.not_mem_nil
    | cons other before =>
      cases heq
      exact List.forall_mem_cons.mpr ⟨hintact, h before reached after rfl hreached.of_cons.2⟩

theorem unbroken_cons_of_damaged (hdamaged : line.intact = false) :
    Unbroken (line :: lines) ↔ line.stops = true ∨ ¬ Reads lines := by
  constructor
  · intro h
    cases hstops : line.stops with
    | true => exact Or.inl rfl
    | false =>
      refine Or.inr ?_
      rintro ⟨before, reached, after, rfl, hreached⟩
      have hintact := h (line :: before) reached after rfl (hreached.cons hstops) line List.mem_cons_self
      rw [hdamaged] at hintact
      cases hintact
  · intro h before reached after heq hreached
    cases before with
    | nil => exact fun _ hother => absurd hother List.not_mem_nil
    | cons other before =>
      cases heq
      obtain ⟨hstops, hreached⟩ := hreached.of_cons
      rcases h with hstop | hnone
      · rw [hstops] at hstop
        cases hstop
      · exact absurd ⟨before, reached, after, rfl, hreached⟩ hnone

theorem not_marked_true : ∀ mark ∈ marks true lines, mark.2 = false := by
  have hfilter := filter_marks_true lines
  rw [List.filter_eq_nil_iff] at hfilter
  exact fun mark hmark => Bool.eq_false_iff.mpr (hfilter mark hmark)

theorem exists_marked_iff : (∃ mark ∈ marks false lines, mark.2 = true) ↔ Reads lines := by
  induction lines with
  | nil => simp [marks, Reads]
  | cons line lines ih =>
    rw [reads_cons, marks, List.exists_mem_cons_iff, Bool.not_false, Bool.true_and, Bool.false_or]
    refine or_congr Iff.rfl ?_
    cases hstops : line.stops with
    | false => simp [ih]
    | true =>
      have hnone := not_marked_true lines
      simp only [Bool.true_eq_false, false_and, iff_false, not_exists, not_and, Bool.not_eq_true]
      exact hnone

theorem exists_unmarked_iff :
    (∃ mark ∈ marks false lines, mark.2 = false) ↔ ∃ line ∈ lines, line.intact = false := by
  induction lines with
  | nil => simp [marks]
  | cons line lines ih =>
    rw [marks, List.exists_mem_cons_iff, List.exists_mem_cons_iff, Bool.not_false, Bool.true_and,
      Bool.false_or]
    cases hintact : line.intact with
    | false => simp
    | true => rw [stops_of_intact hintact, ih]

theorem pairwise_marks_iff :
    ((marks false lines).Pairwise fun a b => b.2 = true → a.2 = true) ↔ Unbroken lines := by
  induction lines with
  | nil => simp [marks, Unbroken]
  | cons line lines ih =>
    rw [marks, List.pairwise_cons, Bool.not_false, Bool.true_and, Bool.false_or]
    cases hintact : line.intact with
    | true =>
      rw [stops_of_intact hintact, unbroken_cons_of_intact lines hintact, ih]
      simp
    | false =>
      have hnone : (∀ mark ∈ marks line.stops lines, mark.2 = true → false = true) ↔
          line.stops = true ∨ ¬ Reads lines := by
        cases hstops : line.stops with
        | true =>
          have hfalse := not_marked_true lines
          simp only [Bool.false_eq_true, imp_false, true_or, iff_true, Bool.not_eq_true]
          exact hfalse
        | false =>
          rw [← exists_marked_iff]
          simp
      rw [unbroken_cons_of_damaged lines hintact, ← hnone, and_iff_left_iff_imp]
      intro hfalse
      refine List.pairwise_of_forall_mem_list fun a _ b hb hmarked => ?_
      exact absurd (hfalse b hb hmarked) Bool.false_ne_true

end WALLine

/-- A log with damaged lines. -/
structure DamagedLog (fmt : FloatFormat Rat) where
  segments : List (Nat × List WALLine)
  segmentId_le : ∀ segment ∈ segments, segment.1 ≤ 999999
  valid : ∀ segment ∈ segments, ∀ line ∈ segment.2, line.Valid fmt
  increasing : Increasing (segments.flatMap fun segment => segment.2.map WALLine.record)

namespace DamagedLog

variable {fmt : FloatFormat Rat} (log : DamagedLog fmt)

def files : List (Nat × Text) :=
  log.segments.map fun segment => (segment.1, Files.content (WALLine.text fmt) segment.2)

def history : List WALRecord := log.segments.flatMap fun segment => segment.2.map WALLine.record

/-- Nothing that a reader gets to comes behind a damaged line, in its segment or in an earlier one. -/
structure NoHole : Prop where
  inside : ∀ segment ∈ log.segments, WALLine.Unbroken segment.2
  behind : log.segments.Pairwise fun a b =>
    (∃ line ∈ a.2, line.intact = false) → ¬ WALLine.Reads b.2

def marks : List (WALRecord × Bool) := log.segments.flatMap fun segment => WALLine.marks false segment.2

theorem map_fst_marks : log.marks.map Prod.fst = log.history := by
  rw [marks, history, List.map_flatMap]
  exact List.flatMap_congr fun segment _ => WALLine.map_fst_marks false segment.2

theorem readAll_files (now : Rat) :
    readAll (WALRecord.read fmt true now) log.files = (log.marks.filter Prod.snd).map Prod.fst := by
  rw [readAll, files, List.flatMap_map, marks, List.filter_flatMap, List.map_flatMap]
  exact List.flatMap_congr fun segment hsegment => WALLine.records_lines (log.valid segment hsegment) now

theorem pairwise_marks_iff : (log.marks.Pairwise fun a b => b.2 = true → a.2 = true) ↔ log.NoHole := by
  rw [marks, List.pairwise_flatMap]
  constructor
  · rintro ⟨hinside, hbehind⟩
    refine ⟨fun segment hsegment => (WALLine.pairwise_marks_iff _).mp (hinside segment hsegment),
      hbehind.imp ?_⟩
    intro a b hab hdamaged hreads
    obtain ⟨mark, hmark, hfalse⟩ := (WALLine.exists_unmarked_iff _).mpr hdamaged
    obtain ⟨mark', hmark', htrue⟩ := (WALLine.exists_marked_iff _).mpr hreads
    have hmarked := hab mark hmark mark' hmark' htrue
    rw [hfalse] at hmarked
    cases hmarked
  · rintro ⟨hinside, hbehind⟩
    refine ⟨fun segment hsegment => (WALLine.pairwise_marks_iff _).mpr (hinside segment hsegment),
      hbehind.imp ?_⟩
    intro a b hab mark hmark mark' hmark' htrue
    by_contra hfalse
    rw [Bool.not_eq_true] at hfalse
    exact hab ((WALLine.exists_unmarked_iff _).mp ⟨mark, hmark, hfalse⟩)
      ((WALLine.exists_marked_iff _).mp ⟨mark', hmark', htrue⟩)

/-- **Replay is a beginning of the history only where there is no hole.** -/
theorem replay_prefix_iff (log : DamagedLog fmt) (e : WALEngine) (h : HasFiles e.directory log.files)
    (now : Rat) : (e.iterAllRecords fmt now true).2 <+: log.history ↔ log.NoHole := by
  have hids : ∀ file ∈ log.files, file.1 ≤ 999999 := by
    intro file hfile
    obtain ⟨segment, hsegment, rfl⟩ := List.mem_map.mp hfile
    exact log.segmentId_le segment hsegment
  have hnodup : (log.marks.map Prod.fst).Nodup := by
    rw [log.map_fst_marks]
    exact List.Nodup.of_map WALRecord.seqNo (log.increasing.pairwise.imp fun hlt => hlt.ne)
  rw [WALEngine.iterAllRecords_eq fmt now h hids, log.readAll_files, ← log.map_fst_marks,
    Lib.Files.filter_prefix_iff hnodup, log.pairwise_marks_iff]

theorem valid_intact (seqNo : Int) : WALLine.Valid digitFloats ⟨WALRecord.numbered seqNo, none⟩ := by
  refine ⟨WALRecord.sealed_numbered seqNo, ?_, ?_⟩
  · rintro _ ⟨⟩
  · rintro _ ⟨⟩

def cutSecond : WALLine :=
  ⟨WALRecord.numbered 2, some (((WALRecord.numbered 2).text digitFloats).take 30)⟩

theorem valid_cutSecond : cutSecond.Valid digitFloats := by
  have hcut := List.take_prefix 30 ((WALRecord.numbered 2).text digitFloats)
  have hsealed := WALRecord.sealed_numbered 2
  refine ⟨hsealed, ?_, ?_⟩
  · rintro _ ⟨⟩ c hc
    exact hsealed.isLine_text.unbroken c (hcut.subset hc)
  · rintro _ ⟨⟩ now
    exact hsealed.read_torn hcut (by decide +kernel) (by decide +kernel) true now

def afterCut (numbers : List Int) (hnumbers : Increasing
    (([1, 2] ++ numbers).map WALRecord.numbered)) : DamagedLog digitFloats where
  segments := [(1, [⟨WALRecord.numbered 1, none⟩, cutSecond]),
    (2, numbers.map fun seqNo => ⟨WALRecord.numbered seqNo, none⟩)]
  segmentId_le := by simp
  valid := by
    simp only [List.forall_mem_cons, List.forall_mem_map]
    exact ⟨⟨valid_intact 1, valid_cutSecond, fun _ hline => absurd hline List.not_mem_nil⟩,
      fun seqNo _ => valid_intact seqNo, fun _ hsegment => absurd hsegment List.not_mem_nil⟩
  increasing := by
    simpa [cutSecond, Function.comp_def] using hnumbers

def engineOn (log : DamagedLog digitFloats)
    (h : ((log.files.map fun file => (segmentFile file.1, file.2)).map Prod.fst).Nodup) : WALEngine :=
  WALEngine.new ⟨_, h⟩

theorem replay_prefix_damaged_tail :
    ((engineOn (afterCut [] ⟨by decide +kernel, by decide +kernel⟩) (by decide +kernel)).iterAllRecords
      digitFloats 3 true).2 <+: (afterCut [] ⟨by decide +kernel, by decide +kernel⟩).history := by
  refine (replay_prefix_iff (afterCut [] _) _ ⟨rfl, by decide +kernel⟩ 3).mpr ?_
  exact (pairwise_marks_iff _).mp (by decide +kernel)

/-- The third record is replayed without the second one. -/
theorem replay_over_hole :
    ((engineOn (afterCut [3] ⟨by decide +kernel, by decide +kernel⟩) (by decide +kernel)).iterAllRecords
        digitFloats 3 true).2 = [WALRecord.numbered 1, WALRecord.numbered 3] ∧
      ¬ ((engineOn (afterCut [3] ⟨by decide +kernel, by decide +kernel⟩) (by decide +kernel)).iterAllRecords
        digitFloats 3 true).2 <+: (afterCut [3] ⟨by decide +kernel, by decide +kernel⟩).history := by
  decide +kernel

end DamagedLog

end MeshWeaver
