import Mathlib.Data.List.Dedup
import Mathlib.Data.Prod.Lex
import MeshWeaver.Storage.Snapshots
import MeshWeaver.Wal.Record

/-!
# The newest snapshot

Which snapshot `load_latest_snapshot` returns after some calls of `save_snapshot`. The names are sorted as
texts: an index of nine digits can come before one of eight digits, and the snapshots with such smaller indexes
overtake the newest one, both when it is loaded and when the oldest ones are removed.
-/

namespace MeshWeaver

open Lib Directory SnapshotFile
open Lib.Json (FloatFormat)
open Lib.Files (padded)

/-! ### The order of the names -/

/-- The name of the older pair `p` sorts behind the name of `q`: the number of `q` has more digits than the one
of `p`, and its first digits are not greater. -/
def Overtakes (p q : Nat × Nat) : Prop :=
  p.1 < q.1 ∧ (padded 8 p.1).length < (padded 8 q.1).length ∧
      q.1 / 10 ^ ((padded 8 q.1).length - (padded 8 p.1).length) ≤ p.1 ∨
    p.1 = q.1 ∧ p.2 < q.2 ∧ (padded 4 p.2).length < (padded 4 q.2).length ∧
      q.2 / 10 ^ ((padded 4 q.2).length - (padded 4 p.2).length) < p.2
deriving Decidable

theorem precedes_snapshotName_iff {p q : Nat × Nat} (h : toLex p < toLex q) :
    Text.precedes (snapshotName q) (snapshotName p) = true ↔ Overtakes p q := by
  rw [SnapshotDiskStore.snapshotName_eq, SnapshotDiskStore.snapshotName_eq, Files.precedes_append_left_eq]
  rcases Prod.Lex.toLex_lt_toLex.mp h with hindex | ⟨hindex, hterm⟩
  · rw [Files.precedes_padded_iff hindex (by decide), Overtakes]
    have hunder : 57 < '_'.toNat := by decide
    omega
  · have hsnap : ".snap".toList = '.' :: "snap".toList := by decide
    have hdot : ¬ 57 < '.'.toNat := by decide
    rw [hsnap, ← hindex, List.append_cons _ _ (padded 4 q.2 ++ _), List.append_cons _ _ (padded 4 p.2 ++ _),
      Files.precedes_append_left_eq, Files.precedes_padded_iff hterm (by decide), Overtakes]
    omega

theorem not_overtakes {p q : Nat × Nat} (hindex : q.1 < 10 ^ 8) (hterm : q.2 < 10 ^ 4) : ¬ Overtakes p q := by
  rintro (⟨hlt, hlength, -⟩ | ⟨-, hlt, hlength, -⟩)
  · rw [Files.length_padded (by decide) hindex,
      Files.length_padded (by decide) (hlt.trans hindex)] at hlength
    exact Nat.lt_irrefl _ hlength
  · rw [Files.length_padded (by decide) hterm,
      Files.length_padded (by decide) (hlt.trans hterm)] at hlength
    exact Nat.lt_irrefl _ hlength

/-! ### Many calls -/

/-- A call of `save_snapshot`; `stamp` are the milliseconds of the clock. -/
structure SaveCall where
  stamp : Nat
  envelope : Envelope

namespace SaveCall

variable (fmt : FloatFormat Rat) (sha256 : Text → Text)

def pair (call : SaveCall) : Nat × Nat := call.envelope.pair

def entry (call : SaveCall) : Text × Option SnapshotFile :=
  (snapshotName call.pair, some (call.envelope.file fmt sha256))

end SaveCall

/-- No later call has the index and the term of the call. -/
def LastSave (calls : List SaveCall) (call : SaveCall) : Prop :=
  ∃ before after, calls = before ++ call :: after ∧ ∀ later ∈ after, later.pair ≠ call.pair

theorem LastSave.mem {calls : List SaveCall} {call : SaveCall} (h : LastSave calls call) : call ∈ calls := by
  obtain ⟨before, after, rfl, -⟩ := h
  exact List.mem_append_right _ List.mem_cons_self

theorem exists_lastSave {calls : List SaveCall} {call : SaveCall} (h : call ∈ calls) :
    ∃ last, LastSave calls last ∧ last.pair = call.pair := by
  induction calls generalizing call with
  | nil => cases h
  | cons first calls ih =>
    by_cases hlater : ∃ later ∈ calls, later.pair = call.pair
    · obtain ⟨later, hmem, hpair⟩ := hlater
      obtain ⟨last, ⟨before, after, rfl, hafter⟩, hlast⟩ := ih hmem
      exact ⟨last, ⟨first :: before, after, rfl, hafter⟩, hlast.trans hpair⟩
    · have hfirst : call = first := (List.mem_cons.mp h).resolve_right fun hmem => hlater ⟨call, hmem, rfl⟩
      subst hfirst
      exact ⟨call, ⟨[], calls, rfl, fun later hmem hpair => hlater ⟨later, hmem, hpair⟩⟩, rfl⟩

/-- The last call with the greatest index and term. -/
structure IsNewest (calls : List SaveCall) (call : SaveCall) : Prop where
  last : LastSave calls call
  greatest : ∀ other ∈ calls, toLex other.pair ≤ toLex call.pair

namespace SnapshotDiskStore

variable (fmt : FloatFormat Rat) (sha256 : Text → Text)

def saveAll (keep : Int) (calls : List SaveCall) : Directory (Option SnapshotFile) :=
  run (fun directory call => saveSnapshot fmt sha256 keep call.stamp call.envelope directory)
    Dict.empty calls

theorem files_saveAll {keep : Int} (hkeep : 1 ≤ keep) (calls : List SaveCall) :
    files (saveAll fmt sha256 keep calls) = (putAll (SaveCall.entry fmt sha256) calls).take keep.toNat := by
  induction calls using List.reverseRecOn with
  | nil => exact List.take_nil.symm
  | append_singleton calls call ih =>
    rw [saveAll, run_append, run_cons, run_nil, files_saveSnapshot, take_kept hkeep,
      putAll_concat, ← take_put, ← ih]
    rfl

variable {fmt sha256} {calls : List SaveCall} {call : SaveCall}
  {above below : List (Text × Option SnapshotFile)}

theorem mem_saved_iff {file : Text × Option SnapshotFile} :
    file ∈ putAll (SaveCall.entry fmt sha256) calls ↔
      ∃ other, LastSave calls other ∧ other.entry fmt sha256 = file := by
  rw [mem_putAll]
  constructor
  · rintro ⟨before, other, after, hsplit, rfl, hafter⟩
    exact ⟨other, ⟨before, after, hsplit, fun later hlater heq =>
      hafter later hlater (congrArg snapshotName heq)⟩, rfl⟩
  · rintro ⟨other, ⟨before, after, hsplit, hafter⟩, rfl⟩
    exact ⟨before, other, after, hsplit, rfl, fun later hlater heq =>
      hafter later hlater (snapshotName_injective heq)⟩

theorem not_precedes_iff (hnewest : IsNewest calls call) {other : SaveCall} (hother : other ∈ calls) :
    Text.precedes (snapshotName other.pair) (snapshotName call.pair) = false ↔ Overtakes other.pair call.pair := by
  rcases (hnewest.greatest other hother).eq_or_lt with heq | hlt
  · have hself : other.pair = call.pair := toLex_inj.mp heq
    rw [hself, Text.precedes_refl]
    exact iff_of_false (by decide) fun h => by
      rcases h with ⟨h, -⟩ | ⟨-, h, -⟩
      · exact Nat.lt_irrefl _ h
      · exact Nat.lt_irrefl _ h
  · have hne : snapshotName other.pair ≠ snapshotName call.pair := fun h =>
      hlt.ne (congrArg toLex (snapshotName_injective h))
    rw [← precedes_snapshotName_iff hlt]
    constructor
    · intro hnot
      exact (Text.precedes_total _ _).resolve_left (by simp [hnot])
    · intro hprecedes
      exact Bool.of_not_eq_true fun h => hne (Text.precedes_antisymm h hprecedes)

theorem mem_above_iff (hnewest : IsNewest calls call)
    (hsplit : putAll (SaveCall.entry fmt sha256) calls = above ++ call.entry fmt sha256 :: below)
    (file : Text × Option SnapshotFile) :
    file ∈ above ↔
      ∃ other, LastSave calls other ∧ Overtakes other.pair call.pair ∧ other.entry fmt sha256 = file := by
  have hdescending := descending_putAll (SaveCall.entry fmt sha256) calls
  rw [hsplit] at hdescending
  rw [hdescending.mem_above_iff, ← hsplit, mem_saved_iff]
  constructor
  · rintro ⟨⟨other, hlast, rfl⟩, hnot⟩
    exact ⟨other, hlast, (not_precedes_iff hnewest hlast.mem).mp hnot, rfl⟩
  · rintro ⟨other, hlast, hovertakes, rfl⟩
    exact ⟨⟨other, hlast, rfl⟩, (not_precedes_iff hnewest hlast.mem).mpr hovertakes⟩

/-- The pairs that overtake `pair`, each of them once. -/
def overtaking (calls : List SaveCall) (pair : Nat × Nat) : List (Nat × Nat) :=
  ((calls.map SaveCall.pair).filter fun other => Overtakes other pair).dedup

theorem length_above (hnewest : IsNewest calls call)
    (hsplit : putAll (SaveCall.entry fmt sha256) calls = above ++ call.entry fmt sha256 :: below) :
    above.length = (overtaking calls call.pair).length := by
  have hdescending := descending_putAll (SaveCall.entry fmt sha256) calls
  have hnames : (above.map Prod.fst).Nodup := by
    have hnodup := hdescending.nodup
    rw [hsplit, List.map_append] at hnodup
    exact (List.nodup_append.mp hnodup).1
  have hpairs : ((overtaking calls call.pair).map snapshotName).Nodup :=
    (List.nodup_dedup _).map snapshotName_injective
  have hperm : (above.map Prod.fst).Perm ((overtaking calls call.pair).map snapshotName) := by
    refine (List.perm_ext_iff_of_nodup hnames hpairs).mpr fun name => ?_
    simp only [overtaking, List.mem_map, List.mem_dedup, List.mem_filter, decide_eq_true_eq]
    constructor
    · rintro ⟨file, hfile, rfl⟩
      obtain ⟨other, hlast, hovertakes, rfl⟩ := (mem_above_iff hnewest hsplit file).mp hfile
      exact ⟨other.pair, ⟨⟨other, hlast.mem, rfl⟩, hovertakes⟩, rfl⟩
    · rintro ⟨-, ⟨⟨other, hother, rfl⟩, hovertakes⟩, rfl⟩
      obtain ⟨last, hlast, hpair⟩ := exists_lastSave hother
      rw [← hpair] at hovertakes ⊢
      exact ⟨last.entry fmt sha256, (mem_above_iff hnewest hsplit _).mpr ⟨last, hlast, hovertakes, rfl⟩, rfl⟩
  have hlength := hperm.length_eq
  rwa [List.length_map, List.length_map] at hlength

/-- **The newest snapshot is loaded** exactly when its data are plain, fewer pairs overtake it than snapshots
are kept, and none of the snapshots that overtake it can be read. -/
theorem load_newest_iff (fmt : FloatFormat Rat) (sha256 : Text → Text) (keep : Int) (hkeep : 1 ≤ keep)
    (calls : List SaveCall) (call : SaveCall) (hnewest : IsNewest calls call)
    (hdistinct : call.envelope.data.All PyData.Distinct) :
    loadLatestSnapshot fmt sha256 (saveAll fmt sha256 keep calls) = some (call.envelope.data, call.pair) ↔
      call.envelope.data.All PyData.Plain ∧ (overtaking calls call.pair).length < keep ∧
        ∀ other, LastSave calls other → Overtakes other.pair call.pair → other.envelope.Garbled fmt sha256 := by
  have hmem : call.entry fmt sha256 ∈ putAll (SaveCall.entry fmt sha256) calls :=
    mem_saved_iff.mpr ⟨call, hnewest.last, rfl⟩
  obtain ⟨above, below, hsplit⟩ := List.append_of_mem hmem
  have hother : ∀ file ∈ above ++ below,
      file.2.bind (read? fmt sha256) ≠ some (call.envelope.data, call.pair) := by
    intro file hfile hread
    have hdescending := descending_putAll (SaveCall.entry fmt sha256) calls
    rw [hsplit] at hdescending
    have hmem : file ∈ putAll (SaveCall.entry fmt sha256) calls := by
      rw [hsplit]
      exact (List.append_sublist_append_left _).mpr (List.sublist_cons_self _ _) |>.mem hfile
    obtain ⟨other, -, rfl⟩ := mem_saved_iff.mp hmem
    have hpair : call.pair = other.pair := snd_of_read? hread
    exact hdescending.ne_of_mem hfile (congrArg snapshotName hpair.symm)
  rw [loadLatestSnapshot, firstReadable, files_saveAll fmt sha256 hkeep, hsplit,
    findSome?_take_eq_some_iff (fun file h => hother file (List.mem_append_left _ h))
      (fun file h => hother file (List.mem_append_right _ h)),
    length_above hnewest hsplit]
  have hread : (call.entry fmt sha256).2.bind (read? fmt sha256) =
      some (call.envelope.data, call.pair) ↔ call.envelope.data.All PyData.Plain :=
    read?_file_eq_iff hdistinct
  have hcount :
      (overtaking calls call.pair).length < keep.toNat ↔ (overtaking calls call.pair).length < keep := by
    omega
  have hunread : (∀ file ∈ above, file.2.bind (read? fmt sha256) = none) ↔
      ∀ other, LastSave calls other → Overtakes other.pair call.pair → other.envelope.Garbled fmt sha256 := by
    constructor
    · intro h other hlast hovertakes
      exact read?_file_eq_none_iff.mp
        (h _ ((mem_above_iff hnewest hsplit _).mpr ⟨other, hlast, hovertakes, rfl⟩))
    · intro h file hfile
      obtain ⟨other, hlast, hovertakes, rfl⟩ := (mem_above_iff hnewest hsplit file).mp hfile
      exact read?_file_eq_none_iff.mpr (h other hlast hovertakes)
  rw [hread, hcount, hunread]
  exact and_rotate.symm

/-- Three snapshots are saved, the newest one of them second. -/
theorem load_newest_second :
    loadLatestSnapshot digitFloats id (saveAll digitFloats id 2
      [⟨10, ⟨5, 1, 1, .dict [(.str "x", .int 1)]⟩⟩, ⟨20, ⟨7, 2, 2, .dict [(.str "x", .int 2)]⟩⟩,
        ⟨30, ⟨6, 2, 3, .dict [(.str "x", .int 3)]⟩⟩]) =
      some (.dict [(.str "x", .int 2)], 7, 2) := by
  refine (load_newest_iff digitFloats id 2 (by decide) _ ⟨20, ⟨7, 2, 2, .dict [(.str "x", .int 2)]⟩⟩
    ⟨⟨[_], [_], rfl, by decide⟩, by decide⟩ (by decide)).mpr ⟨?_, by decide, ?_⟩
  · exact ⟨⟨by decide, nofun⟩, ⟨nofun, nofun⟩, trivial⟩
  · exact fun other _ hovertakes => absurd hovertakes (not_overtakes (by decide) (by decide))

/-- The snapshot of index 100000000 is removed when it has been saved, and the one of 99999999 is kept. -/
theorem newest_removed :
    (loadLatestSnapshot digitFloats id (saveAll digitFloats id 1
      [⟨10, ⟨99999999, 1, 1, .dict [(.str "x", .int 1)]⟩⟩,
        ⟨20, ⟨100000000, 1, 2, .dict [(.str "x", .int 2)]⟩⟩])).map Prod.snd = some (99999999, 1) := by
  decide +kernel

end SnapshotDiskStore

end MeshWeaver
