import Mathlib.Data.Prod.Lex
import MeshWeaver.Storage.Snapshots
import MeshWeaver.Wal.Record

/-!
# A crash while a snapshot is saved

The process can stop after any of the steps of `save_snapshot`. The listing is then the old one, the old one
without the file that is to be replaced, or the new one with some of the stale files removed. What
`load_latest_snapshot` returns of them is compared with what it returned before.
-/

namespace MeshWeaver.SnapshotDiskStore

open Lib SnapshotFile
open Lib.Json (FloatFormat)

variable (fmt : FloatFormat Rat) (sha256 : Text → Text)

/-- Every snapshot file can be read and has the name of its index and term. -/
def Valid (directory : Directory (Option SnapshotFile)) : Prop :=
  ∀ file ∈ files directory,
    (file.2.any fun content =>
      file.1 = snapshotName content.envelope.pair && (content.read? fmt sha256).isSome) = true
deriving Decidable

/-- What is loaded after a crash is the snapshot from before or the new one, and neither nothing nor an older
snapshot if there was one. -/
def CrashSafe (before : Option (PyData × Nat × Nat)) (new : PyData × Nat × Nat)
    (after : Option (PyData × Nat × Nat)) : Prop :=
  (after = before ∨ after = some new) ∧
    ∀ old, before = some old → ∃ loaded, after = some loaded ∧ toLex old.2 ≤ toLex loaded.2

theorem CrashSafe.refl (before : Option (PyData × Nat × Nat)) (new : PyData × Nat × Nat) :
    CrashSafe before new before :=
  ⟨Or.inl rfl, fun old h => ⟨old, h, le_rfl⟩⟩

section
variable (keep : Int) (stamp : Nat) (envelope : Envelope) (directory : Directory (Option SnapshotFile))

theorem length_removeSteps (target : Text) : (removeSteps target directory).length ≤ 1 := by
  rw [removeSteps]
  split_ifs
  · exact Nat.le_refl 1
  · exact Nat.zero_le 1

theorem files_take_writeSteps {k : Nat} (hk : k < (writeSteps fmt sha256 stamp envelope directory).length) :
    let after := files (FileStep.run directory ((writeSteps fmt sha256 stamp envelope directory).take k))
    after = files directory ∨ after = otherFiles envelope directory := by
  rw [writeSteps, List.length_append, List.length_append, List.length_singleton] at hk
  rw [writeSteps]
  rcases Nat.le_total k (tempSteps fmt sha256 stamp envelope).length with hle | hle
  · rw [List.take_append_of_le_length hle]
    exact Or.inl (files_take_tempSteps fmt sha256 stamp envelope directory k)
  · obtain ⟨i, rfl⟩ := Nat.exists_eq_add_of_le hle
    rw [List.take_length_add_append, List.take_append_of_le_length (by omega)]
    rcases i with _ | i
    · exact Or.inl (files_take_tempSteps fmt sha256 stamp envelope directory 3)
    · have hremove := length_removeSteps (FileStep.run directory (tempSteps fmt sha256 stamp envelope))
        (snapshotName envelope.pair)
      rw [List.take_of_length_le (by omega)]
      exact Or.inr (files_temp_remove fmt sha256 stamp envelope directory)

theorem files_take_cases (k : Nat) :
    let after := files (FileStep.run directory ((saveSteps fmt sha256 keep stamp envelope directory).take k))
    let all := putFile fmt sha256 envelope (files directory)
    after = files directory ∨ after = otherFiles envelope directory ∨
      ∃ j, after = pruned (kept keep all.length) j all := by
  rcases Nat.lt_or_ge k (writeSteps fmt sha256 stamp envelope directory).length with hlt | hge
  · rw [saveSteps, List.take_append_of_le_length hlt.le, ← or_assoc]
    exact Or.inl (files_take_writeSteps fmt sha256 stamp envelope directory hlt)
  · obtain ⟨j, rfl⟩ := Nat.exists_eq_add_of_le hge
    exact Or.inr (Or.inr ⟨j, files_take_saveSteps fmt sha256 stamp envelope directory keep j⟩)

theorem exists_take_removed :
    ∃ k, files (FileStep.run directory ((saveSteps fmt sha256 keep stamp envelope directory).take k)) =
      otherFiles envelope directory := by
  refine ⟨(tempSteps fmt sha256 stamp envelope ++ removeSteps (snapshotName envelope.pair)
    (FileStep.run directory (tempSteps fmt sha256 stamp envelope))).length, ?_⟩
  rw [saveSteps, writeSteps, ← List.append_assoc, List.append_assoc, List.take_left]
  exact files_temp_remove fmt sha256 stamp envelope directory

end

/-! ### What is loaded -/

variable {fmt sha256} {envelope : Envelope} {directory : Directory (Option SnapshotFile)}

theorem Valid.exists_content (hvalid : Valid fmt sha256 directory) {file : Text × Option SnapshotFile}
    (hfile : file ∈ files directory) :
    ∃ content old, file = (snapshotName content.envelope.pair, some content) ∧
      content.read? fmt sha256 = some old ∧ old.2 = content.envelope.pair := by
  obtain ⟨name, content⟩ := file
  obtain ⟨content, rfl, hcontent⟩ := (Option.any_eq_true _ _).mp (hvalid _ hfile)
  rw [Bool.and_eq_true, decide_eq_true_eq] at hcontent
  obtain ⟨old, hread⟩ := Option.isSome_iff_exists.mp hcontent.2
  exact ⟨content, old, Prod.ext hcontent.1 rfl, hread, snd_of_read? hread⟩

theorem firstReadable_cons (file : Text × Option SnapshotFile) (rest : List (Text × Option SnapshotFile)) :
    firstReadable fmt sha256 (file :: rest) =
      (file.2.bind (read? fmt sha256)).or (firstReadable fmt sha256 rest) := by
  rw [firstReadable, List.findSome?_cons]
  cases file.2.bind (read? fmt sha256)
  · rfl
  · rfl

section
variable {latest : SnapshotFile} {old : PyData × Nat × Nat} {rest : List (Text × Option SnapshotFile)}
  {new : PyData × Nat × Nat}

theorem firstReadable_latest (hold : latest.read? fmt sha256 = some old) (name : Text) :
    firstReadable fmt sha256 ((name, some latest) :: rest) = some old := by
  rw [firstReadable_cons, Option.bind_some, hold, Option.some_or]

theorem not_crashSafe_none : ¬ CrashSafe (some old) new none := by
  rintro ⟨-, hkept⟩
  obtain ⟨loaded, hloaded, -⟩ := hkept old rfl
  cases hloaded

theorem crashSafe_new_iff : CrashSafe (some old) new (some new) ↔ toLex old.2 ≤ toLex new.2 := by
  constructor
  · rintro ⟨-, hkept⟩
    obtain ⟨loaded, hloaded, hle⟩ := hkept old rfl
    rwa [Option.some_inj.mp hloaded]
  · intro hle
    refine ⟨Or.inr rfl, fun old' hold => ⟨new, rfl, ?_⟩⟩
    rwa [← Option.some_inj.mp hold]

theorem crashSafe_removed_iff (hvalid : Valid fmt sha256 directory)
    (hfiles : files directory = (snapshotName latest.envelope.pair, some latest) :: rest)
    (hold : latest.read? fmt sha256 = some old) (hnew : new.2 = envelope.pair) :
    CrashSafe (some old) new (firstReadable fmt sha256 (otherFiles envelope directory)) ↔
      latest.envelope.pair ≠ envelope.pair := by
  constructor
  · rintro ⟨hloaded, -⟩ heq
    have hother : ∀ loaded : PyData × Nat × Nat, loaded.2 = envelope.pair →
        firstReadable fmt sha256 (otherFiles envelope directory) ≠ some loaded := by
      intro loaded hpair hfound
      obtain ⟨file, hfile, hread⟩ := List.exists_of_findSome?_eq_some hfound
      rw [List.mem_filter, decide_eq_true_eq] at hfile
      obtain ⟨content, old', rfl, hcontent, hold'⟩ := hvalid.exists_content hfile.1
      have hsame : old' = loaded := Option.some_inj.mp (hcontent.symm.trans hread)
      exact hfile.2 (congrArg snapshotName (hold'.symm.trans (hsame ▸ hpair)))
    rcases hloaded with hloaded | hloaded
    · exact hother old ((snd_of_read? hold).trans heq) hloaded
    · exact hother new hnew hloaded
  · intro hne
    have hname : snapshotName latest.envelope.pair ≠ snapshotName envelope.pair := fun h =>
      hne (snapshotName_injective h)
    rw [otherFiles, hfiles, List.filter_cons, if_pos (decide_eq_true hname), firstReadable_latest hold]
    exact CrashSafe.refl _ _

theorem putFile_cons (hne : latest.envelope.pair ≠ envelope.pair) :
    putFile fmt sha256 envelope ((snapshotName latest.envelope.pair, some latest) :: rest) =
      if Text.precedes (snapshotName latest.envelope.pair) (snapshotName envelope.pair) then
        (snapshotName envelope.pair, some (envelope.file fmt sha256)) ::
          (snapshotName latest.envelope.pair, some latest) :: rest
      else (snapshotName latest.envelope.pair, some latest) :: putFile fmt sha256 envelope rest := by
  rw [putFile, Directory.put, if_neg fun h => hne (snapshotName_injective h)]
  rfl

theorem ne_none_of_crashSafe {all : List (Text × Option SnapshotFile)} {m : Nat}
    (h : ∀ j, CrashSafe (some old) new (firstReadable fmt sha256 (pruned m j all))) :
    firstReadable fmt sha256 (all.take m) ≠ none := by
  intro hnone
  have hall := h all.length
  rw [pruned, List.drop_eq_nil_of_le (Nat.le_add_left _ _), List.append_nil, hnone] at hall
  exact not_crashSafe_none hall

theorem crashSafe_pruned_iff (hfiles : files directory = (snapshotName latest.envelope.pair, some latest) :: rest)
    (hold : latest.read? fmt sha256 = some old) (hne : latest.envelope.pair ≠ envelope.pair) (m : Nat) :
    (∀ j, CrashSafe (some old) (envelope.data.reread fmt, envelope.pair) (firstReadable fmt sha256
        (pruned m j (putFile fmt sha256 envelope (files directory))))) ↔
      0 < m ∧ (Text.precedes (snapshotName latest.envelope.pair) (snapshotName envelope.pair) = true →
        (envelope.Garbled fmt sha256 ∨ toLex latest.envelope.pair ≤ toLex envelope.pair) ∧
          (m = 1 → ¬ envelope.Garbled fmt sha256)) := by
  have hpair : old.2 = latest.envelope.pair := snd_of_read? hold
  rw [hfiles, putFile_cons hne]
  rcases m with _ | m
  · exact iff_of_false (fun h => ne_none_of_crashSafe h rfl) fun h => Nat.lt_irrefl 0 h.1
  split_ifs with hprecedes
  · -- the new file comes first
    by_cases hgarbled : envelope.Garbled fmt sha256
    · have hskip (tail : List (Text × Option SnapshotFile)) : firstReadable fmt sha256
          ((snapshotName envelope.pair, some (envelope.file fmt sha256)) :: tail) =
            firstReadable fmt sha256 tail := by
        rw [firstReadable_cons, Option.bind_some, read?_file, if_pos hgarbled, Option.none_or]
      rcases m with _ | m
      · exact iff_of_false (fun h => ne_none_of_crashSafe h (hskip [])) fun h => (h.2 hprecedes).2 rfl hgarbled
      · refine iff_of_true (fun j => ?_) ⟨Nat.succ_pos _, fun _ => ⟨Or.inl hgarbled, fun hone => by omega⟩⟩
        rw [pruned, List.take_succ_cons, List.cons_append, hskip, List.take_succ_cons, List.cons_append,
          firstReadable_latest hold]
        exact CrashSafe.refl _ _
    · simp only [pruned, List.take_succ_cons, List.cons_append, firstReadable_cons, Option.bind_some,
        read?_file, if_neg hgarbled, Option.some_or, crashSafe_new_iff, hpair]
      exact ⟨fun h => ⟨Nat.succ_pos m, fun _ => ⟨Or.inr (h 0), fun _ => hgarbled⟩⟩,
        fun h _ => (h.2 hprecedes).1.resolve_left hgarbled⟩
  · -- the latest file stays the first
    refine iff_of_true (fun j => ?_) ⟨Nat.succ_pos _, fun h => absurd h hprecedes⟩
    rw [pruned, List.take_succ_cons, List.cons_append, firstReadable_latest hold]
    exact CrashSafe.refl _ _

theorem crashSafe_first (m j : Nat) :
    CrashSafe none (envelope.data.reread fmt, envelope.pair) (firstReadable fmt sha256
      (pruned m j (putFile fmt sha256 envelope []))) := by
  refine ⟨?_, fun old hold => by cases hold⟩
  generalize hfound : firstReadable fmt sha256 _ = found
  cases found with
  | none => exact Or.inl rfl
  | some loaded =>
    obtain ⟨file, hfile, hread⟩ := List.exists_of_findSome?_eq_some hfound
    have hentry : file = (snapshotName envelope.pair, some (envelope.file fmt sha256)) := by
      refine List.mem_singleton.mp ((List.mem_append.mp hfile).elim List.mem_of_mem_take List.mem_of_mem_drop)
    subst hentry
    rw [Option.bind_some, read?_file] at hread
    split_ifs at hread
    exact Or.inr hread.symm

end

/-- How many snapshot files there are with the new one. -/
def countWith (envelope : Envelope) (directory : Directory (Option SnapshotFile)) : Nat :=
  (otherFiles envelope directory).length + 1

theorem crashSafe_take_iff (keep : Int) (stamp : Nat) (before : Option (PyData × Nat × Nat))
    (new : PyData × Nat × Nat) :
    (∀ k, CrashSafe before new (loadLatestSnapshot fmt sha256
      (FileStep.run directory ((saveSteps fmt sha256 keep stamp envelope directory).take k)))) ↔
    CrashSafe before new (firstReadable fmt sha256 (files directory)) ∧
    CrashSafe before new (firstReadable fmt sha256 (otherFiles envelope directory)) ∧
    ∀ j, CrashSafe before new (firstReadable fmt sha256
      (pruned (kept keep (countWith envelope directory)) j (putFile fmt sha256 envelope (files directory)))) := by
  have hlength : (putFile fmt sha256 envelope (files directory)).length = countWith envelope directory :=
    (Directory.descending_listing directory).length_put _ _
  rw [← hlength]
  constructor
  · intro h
    obtain ⟨removed, hremoved⟩ := exists_take_removed fmt sha256 keep stamp envelope directory
    refine ⟨h 0, hremoved ▸ h removed, fun j => ?_⟩
    rw [← files_take_saveSteps fmt sha256 stamp envelope directory keep j]
    exact h _
  · rintro ⟨hsame, hremoved, hpruned⟩ k
    rw [loadLatestSnapshot]
    rcases files_take_cases fmt sha256 keep stamp envelope directory k with hfiles | hfiles | ⟨j, hfiles⟩
    · rwa [hfiles]
    · rwa [hfiles]
    · rw [hfiles]
      exact hpruned j

/-- The process may stop after any of the steps. -/
def CrashAtomic (fmt : FloatFormat Rat) (sha256 : Text → Text) (keep : Int) (stamp : Nat) (envelope : Envelope)
    (directory : Directory (Option SnapshotFile)) : Prop :=
  ∀ k, CrashSafe (loadLatestSnapshot fmt sha256 directory) (envelope.data.reread fmt, envelope.pair)
    (loadLatestSnapshot fmt sha256
      (FileStep.run directory ((saveSteps fmt sha256 keep stamp envelope directory).take k)))

/-- **A crash is harmless** exactly when there is no snapshot yet, or the latest one is not the one that is
saved again, some are kept, and it is not overtaken by an older one or by one that cannot be read. -/
theorem crash_atomic_iff (fmt : FloatFormat Rat) (sha256 : Text → Text) (keep : Int) (stamp : Nat)
    (envelope : Envelope) (directory : Directory (Option SnapshotFile)) (hvalid : Valid fmt sha256 directory) :
    CrashAtomic fmt sha256 keep stamp envelope directory ↔
    ∀ name latest, (files directory).head? = some (name, some latest) →
      latest.envelope.pair ≠ envelope.pair ∧ 0 < kept keep (countWith envelope directory) ∧
      (Text.precedes (snapshotName latest.envelope.pair) (snapshotName envelope.pair) = true →
        (envelope.Garbled fmt sha256 ∨ toLex latest.envelope.pair ≤ toLex envelope.pair) ∧
        (kept keep (countWith envelope directory) = 1 → ¬ envelope.Garbled fmt sha256)) := by
  rw [CrashAtomic, crashSafe_take_iff, loadLatestSnapshot, otherFiles]
  cases hfiles : files directory with
  | nil =>
    exact iff_of_true ⟨CrashSafe.refl _ _, CrashSafe.refl _ _, fun j => crashSafe_first _ _⟩ nofun
  | cons head rest =>
    obtain ⟨latest, old, rfl, hold, hpair⟩ := hvalid.exists_content (hfiles ▸ List.mem_cons_self)
    rw [firstReadable_latest hold, ← hfiles, crashSafe_removed_iff hvalid hfiles hold rfl,
      and_congr_right fun hne => crashSafe_pruned_iff hfiles hold hne _]
    constructor
    · rintro ⟨-, h⟩ name latest' hlatest
      rw [hfiles] at hlatest
      cases hlatest
      exact h
    · intro h
      have hhead : (files directory).head? = some (snapshotName latest.envelope.pair, some latest) := by
        rw [hfiles, List.head?_cons]
      exact ⟨CrashSafe.refl _ _, h _ latest hhead⟩

def oneSnapshot : Directory (Option SnapshotFile) :=
  saveSnapshot digitFloats id 3 10 ⟨1, 1, 1, .dict [(.str "x", .int 1)]⟩ .empty

/-- A snapshot with a greater index is saved. -/
theorem crash_atomic_next :
    CrashAtomic digitFloats id 3 20 ⟨2, 1, 2, .dict [(.str "x", .int 2)]⟩ oneSnapshot := by
  refine (crash_atomic_iff digitFloats id 3 20 ⟨2, 1, 2, .dict [(.str "x", .int 2)]⟩ oneSnapshot
    (by decide +kernel)).mpr fun name latest hlatest => ?_
  rw [oneSnapshot, files_saveSnapshot] at hlatest
  cases hlatest
  decide +kernel

/-- The process stops between `os.remove` and `os.rename`, and the only snapshot is gone. -/
theorem crash_loses_snapshot :
    Valid digitFloats id oneSnapshot ∧
      (loadLatestSnapshot digitFloats id oneSnapshot).map Prod.snd = some (1, 1) ∧
      (loadLatestSnapshot digitFloats id (FileStep.run oneSnapshot
        ((saveSteps digitFloats id 3 20 ⟨1, 1, 2, .dict [(.str "x", .int 2)]⟩ oneSnapshot).take 4))).isNone =
          true := by
  decide +kernel

end MeshWeaver.SnapshotDiskStore
